/-
Progress is accounted for exactly.

The one operation that changes the progress of a workload is an accepted
`reportProgress` (`Step.progress_eq`), and it adds its delta without wrapping.
Over a run of the engine this gives the books of a workload (`Accounts`):

* `completed` is the sum of the accepted deltas, as a natural number;
* `checkpointed` is the sum of those up to the last accepted durable one;
* a KNOWN total is never exceeded (`within_total`), whatever deltas are reported.
-/
import WorkloadFabric.Authority
import Mathlib.Data.List.DropRight

namespace WorkloadFabric

namespace Workload

/-! ### One step -/

/-- An accepted report advances the progress, below a KNOWN total. -/
theorem Step.report {w w' : Workload} {episode : ExecutionEpisodeId}
    {gen : ExecutionEpisodeGeneration} {delta : UInt64} {durable : Bool}
    (h : Step w (.reportProgress episode gen delta durable) .allow w') :
    ¬(w.progress.totalKind = .known ∧ w.progress.total < w.progress.completed + delta) ∧
      w.progress.advance delta durable = some w'.progress := by
  cases h with
  | rejected ho => exact absurd rfl ho
  | progress _ _ _ _ _ hd hp => exact ⟨hd, hp⟩

/-- Nothing but an accepted report changes the progress. -/
theorem Step.progress_eq {w w' : Workload} {op : WorkloadOp} {o : Outcome} (h : Step w op o w')
    (hn : ∀ episode gen delta durable,
      ¬(op = .reportProgress episode gen delta durable ∧ o = .allow)) :
    w'.progress = w.progress := by
  rcases h.standing_cases with hq | ⟨id, owner, ownerGen, adv, -, -, rfl⟩ |
    ⟨_, worker, boot, -, -, rfl⟩ | ⟨_, _, _, _, _, _, hop, ho, -⟩
  · exact hq.progress
  · obtain ⟨ep, hs, -⟩ := w.started_succeeds id owner ownerGen adv
    exact hs.progress
  · obtain ⟨ep, hs, -⟩ := w.migrated_succeeds worker boot
    exact hs.progress
  · exact absurd ⟨hop, ho⟩ (hn _ _ _ _)

/-! ### A KNOWN total -/

/-- The total is KNOWN to be `total`, and the completed work is within it. -/
structure Within (total : UInt64) (w : Workload) : Prop where
  known : w.progress.totalKind = .known
  fixed : w.progress.total = total
  within : w.progress.completed ≤ total

theorem Within.step {total : UInt64} {w w' : Workload} {op : WorkloadOp} {o : Outcome}
    (h : Within total w) (hs : Step w op o w') : Within total w' := by
  by_cases hr : ∃ episode gen delta durable,
      op = .reportProgress episode gen delta durable ∧ o = .allow
  · obtain ⟨episode, gen, delta, durable, rfl, rfl⟩ := hr
    obtain ⟨hd, hp⟩ := hs.report
    obtain ⟨-, hp⟩ := Progress.advance_eq_some hp
    -- the sum is below the total even when it wrapped; `advance` let no wrap through
    have hle : w.progress.completed + delta ≤ w.progress.total := by
      rw [← UInt64.not_lt]
      exact fun hlt => hd ⟨h.known, hlt⟩
    rw [h.fixed] at hle
    exact ⟨(congrArg Progress.totalKind hp).trans h.known,
      (congrArg Progress.total hp).trans h.fixed, (congrArg Progress.completed hp).trans_le hle⟩
  · have hp := hs.progress_eq fun episode gen delta durable hop =>
      hr ⟨episode, gen, delta, durable, hop⟩
    exact ⟨(congrArg Progress.totalKind hp).trans h.known,
      (congrArg Progress.total hp).trans h.fixed,
      (congrArg Progress.completed hp).trans_le h.within⟩

/-- **A KNOWN total is never exceeded**, whatever is asked of the workload. -/
theorem within_total {total : UInt64} {w : Workload} (h : Within total w) (calls : List Call) :
    Within total (w.run calls) :=
  run_induction (P := Within total) h (fun hw hs => hw.step hs) calls

end Workload

namespace WorkloadEngine

variable {σ : Type}

/-! ### The reports of a run -/

/-- The report on `id` that the event accepted: its delta, and whether it is durable. -/
def Event.report (id : WorkloadId) (ev : Event σ) : Option (UInt64 × Bool) :=
  match ev.accepted id with
  | some (.progress _ _ delta durable) => some (delta, durable)
  | _ => none

/-- What the event adds to the completed work of `id`. -/
def Event.credit (id : WorkloadId) (ev : Event σ) : ℕ :=
  match ev.report id with
  | some (delta, _) => delta.toNat
  | none => 0

/-- Whether the event is an accepted durable report on `id`. -/
def Event.durable (id : WorkloadId) (ev : Event σ) : Bool :=
  match ev.report id with
  | some (_, durable) => durable
  | none => false

def credits (id : WorkloadId) (evs : List (Event σ)) : ℕ := (evs.map (Event.credit id)).sum

/-- The events up to the last accepted durable report on `id`. -/
def upToDurable (id : WorkloadId) (evs : List (Event σ)) : List (Event σ) :=
  evs.rdropWhile fun ev => !ev.durable id

theorem Event.report_eq_some {id : WorkloadId} {ev : Event σ} {delta : UInt64} {durable : Bool} :
    ev.report id = some (delta, durable) ↔ ∃ episode gen,
      ev.call = .on id (.progress episode gen delta durable) ∧ ev.result.outcome = .allow := by
  rw [Event.report]
  constructor
  · intro h
    split at h
    · rename_i episode gen delta' durable' hr
      obtain ⟨rfl, rfl⟩ := Prod.mk.injEq .. ▸ Option.some.inj h
      exact ⟨episode, gen, Event.accepted_eq_some.mp hr⟩
    · exact absurd h (by simp)
  · intro ⟨episode, gen, h⟩
    rw [Event.accepted_eq_some.mpr h]

theorem credits_append (id : WorkloadId) (evs evs' : List (Event σ)) :
    credits id (evs ++ evs') = credits id evs + credits id evs' := by
  rw [credits, List.map_append, List.sum_append]
  rfl

/-- Later reports that are not durable move no checkpoint. -/
theorem upToDurable_append {id : WorkloadId} {evs post : List (Event σ)}
    (h : ∀ ev ∈ post, ev.durable id = false) :
    upToDurable id (evs ++ post) = upToDurable id evs := by
  induction post using List.reverseRecOn with
  | nil => rw [List.append_nil]
  | append_singleton post ev ih =>
    have hev := h ev (List.mem_append_right _ (List.mem_singleton_self ev))
    rw [upToDurable, ← List.append_assoc, List.rdropWhile_concat_pos _ _ _ (by simp [hev])]
    exact ih fun ev' h' => h ev' (List.mem_append_left _ h')

/-! ### The books -/

/-- What the events say the progress of `id` is. -/
structure Books (id : WorkloadId) (evs : List (Event σ)) (p : Progress) : Prop where
  completed : p.completed.toNat = credits id evs
  checkpointed : p.checkpointed.toNat = credits id (upToDurable id evs)

namespace Books

variable {id : WorkloadId} {evs : List (Event σ)} {ev : Event σ} {p p' : Progress}

/-- An event that reports nothing changes nothing. -/
theorem skip (h : Books id evs p) (hev : ev.report id = none) : Books id (evs ++ [ev]) p where
  completed := by
    rw [credits_append, h.completed]
    simp [credits, Event.credit, hev]
  checkpointed := by
    rw [upToDurable, List.rdropWhile_concat_pos _ _ _ (by simp [Event.durable, hev])]
    exact h.checkpointed

/-- An accepted report is booked. -/
theorem book (h : Books id evs p) {delta : UInt64} {durable : Bool}
    (hev : ev.report id = some (delta, durable)) (hp : p.advance delta durable = some p') :
    Books id (evs ++ [ev]) p' := by
  obtain ⟨hlt, rfl⟩ := Progress.advance_eq_some hp
  have hsum : credits id (evs ++ [ev]) = p.completed.toNat + delta.toNat := by
    rw [credits_append, h.completed]
    simp [credits, Event.credit, hev]
  have hcompleted : (p.completed + delta).toNat = credits id (evs ++ [ev]) := by
    rw [hsum, UInt64.toNat_add, Nat.mod_eq_of_lt hlt]
  refine ⟨hcompleted, ?_⟩
  -- a durable report ends the prefix that counts for the checkpoint
  cases durable with
  | false =>
    rw [upToDurable, List.rdropWhile_concat_pos _ _ _ (by simp [Event.durable, hev])]
    exact h.checkpointed
  | true =>
    rw [upToDurable, List.rdropWhile_concat_neg _ _ _ (by simp [Event.durable, hev])]
    exact hcompleted

/-- Nothing is checkpointed that is not completed. -/
theorem ordered (h : Books id evs p) : p.checkpointed ≤ p.completed := by
  rw [UInt64.le_iff_toNat_le, h.completed, h.checkpointed]
  obtain ⟨later, hsplit⟩ := List.rdropWhile_prefix (fun ev : Event σ => !ev.durable id) (l := evs)
  have := credits_append id (upToDurable id evs) later
  rw [show upToDurable id evs ++ later = evs from hsplit] at this
  omega

/-- The last accepted durable report left its sum as the checkpoint. -/
theorem checkpoint {post : List (Event σ)} (h : Books id (evs ++ [ev] ++ post) p)
    (hev : ev.durable id = true) (hpost : ∀ ev' ∈ post, ev'.durable id = false) :
    p.checkpointed.toNat = credits id (evs ++ [ev]) := by
  rw [h.checkpointed, upToDurable_append hpost, upToDurable,
    List.rdropWhile_concat_neg _ _ _ (by simp [hev])]

end Books

/-- A workload without any accepted request has the books of a fresh one. -/
theorem books_fresh {id : WorkloadId} :
    ∀ {evs : List (Event σ)}, (∀ ev ∈ evs, ev.accepted id = none) →
      Books id evs {} := by
  intro evs h
  induction evs using List.reverseRecOn with
  | nil => exact ⟨rfl, rfl⟩
  | append_singleton evs ev ih =>
    refine (ih fun ev' h' => h ev' (List.mem_append_left _ h')).skip ?_
    rw [Event.report, h ev (by simp)]

/-! ### Runs -/

variable [StateStore σ]

/-- A request that is no accepted report leaves the progress alone. -/
theorem progress_eq_of_step {e : WorkloadEngine σ} {id : WorkloadId} {w w' : Workload}
    {r : Request}
    (hs : w.Step (r.operation e.episodeCounter w) (e.step (.on id r)).1.outcome w')
    (hr : (e.observe (.on id r)).report id = none) : w'.progress = w.progress := by
  refine hs.progress_eq fun episode gen delta durable ⟨hop, ho⟩ => ?_
  have hreq : r = .progress episode gen delta durable := by
    cases r <;> simp only [Request.operation, reduceCtorEq, WorkloadOp.reportProgress.injEq] at hop
    rw [hop.1, hop.2.1, hop.2.2.1, hop.2.2.2]
  have hsome : (e.observe (.on id r)).report id = some (delta, durable) :=
    Event.report_eq_some.mpr ⟨episode, gen, congrArg _ hreq, ho⟩
  rw [hr] at hsome
  exact absurd hsome (by simp)

/-- An accepted report advances the progress. -/
theorem advance_of_step {e : WorkloadEngine σ} {id : WorkloadId} {w w' : Workload} {r : Request}
    (hs : w.Step (r.operation e.episodeCounter w) (e.step (.on id r)).1.outcome w')
    {delta : UInt64} {durable : Bool}
    (hr : (e.observe (.on id r)).report id = some (delta, durable)) :
    w.progress.advance delta durable = some w'.progress := by
  obtain ⟨episode, gen, hcall, ho⟩ := Event.report_eq_some.mp hr
  obtain rfl : r = .progress episode gen delta durable := (EngineCall.on.inj hcall).2
  have ho : (e.step (.on id (.progress episode gen delta durable))).1.outcome = .allow := ho
  rw [ho] at hs
  exact hs.report.2

/-- **The books hold after every run.** -/
theorem books_of_run {store : Option σ} {calls : List EngineCall} {id : WorkloadId}
    {w : Workload} (h : ((ofStore store).run calls).get id = some w) :
    Books id ((ofStore store).events calls) w.progress := by
  refine history_induction (P := fun evs w => Books id evs w.progress) ?_ ?_ ?_ calls h
  · exact fun evs _ _ _ hsilent => books_fresh hsilent
  · intro evs ev w hev hbooks
    exact hbooks.skip (by rw [Event.report, hev])
  · intro evs e r w w' _ hbooks hs
    rcases hr : (e.observe (.on id r)).report id with _ | ⟨delta, durable⟩
    · rw [progress_eq_of_step hs hr]
      exact hbooks.skip hr
    · exact hbooks.book hr (advance_of_step hs hr)

/-- The progress of `id` after a run is exactly what its accepted reports say. -/
structure Accounts (store : Option σ) (calls : List EngineCall) (id : WorkloadId)
    (w : Workload) : Prop where
  /-- the accepted deltas add up to the count, as natural numbers -/
  completed : w.progress.completed.toNat = credits id ((ofStore store).events calls)
  /-- nothing is checkpointed that is not completed -/
  ordered : w.progress.checkpointed ≤ w.progress.completed
  /-- no call lowers the count, and only an accepted report changes it -/
  monotone : ∀ c w', (((ofStore store).run calls).step c).2.get id = some w' →
    w.progress.completed ≤ w'.progress.completed ∧
      ((((ofStore store).run calls).observe c).report id = none →
        w'.progress.completed = w.progress.completed)
  /-- without a durable report nothing is checkpointed -/
  undurable : (∀ ev ∈ (ofStore store).events calls, ev.durable id = false) →
    w.progress.checkpointed = 0
  /-- the last durable report checkpointed the count it left -/
  durable : ∀ pre c post, calls = pre ++ [c] ++ post →
    (((ofStore store).run pre).observe c).durable id = true →
    (∀ ev ∈ ((ofStore store).run (pre ++ [c])).events post, ev.durable id = false) →
    ∃ w₁, ((ofStore store).run (pre ++ [c])).get id = some w₁ ∧
      w.progress.checkpointed = w₁.progress.completed

theorem completed_monotone {e : WorkloadEngine σ} {id : WorkloadId} {w w' : Workload}
    (h : e.get id = some w) {c : EngineCall} (h' : (e.step c).2.get id = some w') :
    w.progress.completed ≤ w'.progress.completed ∧
      ((e.observe c).report id = none → w'.progress.completed = w.progress.completed) := by
  rcases e.step_get_cases h c with ⟨-, hw⟩ | ⟨r, w₁, rfl, hw, hs⟩
  · obtain rfl : w = w' := Option.some.inj (hw.symm.trans h')
    exact ⟨UInt64.le_refl _, fun _ => rfl⟩
  · obtain rfl : w₁ = w' := Option.some.inj (hw.symm.trans h')
    rcases hr : (e.observe (.on id r)).report id with _ | ⟨delta, durable⟩
    · have hp := congrArg Progress.completed (progress_eq_of_step hs hr)
      exact ⟨hp ▸ UInt64.le_refl _, fun _ => hp⟩
    · obtain ⟨hlt, hp⟩ := Progress.advance_eq_some (advance_of_step hs hr)
      refine ⟨?_, fun hn => absurd hn (by simp)⟩
      rw [hp, UInt64.le_iff_toNat_le, UInt64.toNat_add, Nat.mod_eq_of_lt hlt]
      exact Nat.le_add_right ..

/-- A durable report is made on a registered workload. -/
theorem registered_of_durable {e : WorkloadEngine σ} {id : WorkloadId} {pre : List EngineCall}
    {c : EngineCall} (h : ((e.run pre).observe c).durable id = true) :
    ∃ w, (e.run (pre ++ [c])).get id = some w := by
  rw [← Option.ne_none_iff_exists']
  intro hnone
  -- on an unregistered id nothing is accepted
  have hacc := events_of_unregistered hnone ((e.run pre).observe c)
    (by rw [events_append_singleton]; simp)
  rw [Event.durable, Event.report, hacc] at h
  exact absurd h (by decide)

theorem accounts_of_run {store : Option σ} {calls : List EngineCall} {id : WorkloadId}
    {w : Workload} (h : ((ofStore store).run calls).get id = some w) :
    Accounts store calls id w := by
  have hbooks := books_of_run h
  refine ⟨hbooks.completed, hbooks.ordered, fun c w' => completed_monotone h, fun hnone => ?_, ?_⟩
  · -- nothing is left when every event is dropped from the end
    have hup : upToDurable id ((ofStore store).events calls) = [] :=
      List.rdropWhile_eq_nil_iff.mpr fun ev hev => by simp [hnone ev hev]
    rw [← UInt64.toNat_inj, hbooks.checkpointed, hup]
    rfl
  · rintro pre c post rfl hc hpost
    obtain ⟨w₁, hw₁⟩ := registered_of_durable hc
    refine ⟨w₁, hw₁, ?_⟩
    rw [events_append, events_append_singleton] at hbooks
    rw [← UInt64.toNat_inj, hbooks.checkpoint hc hpost, (books_of_run hw₁).completed,
      events_append_singleton]

/-- **Progress accounting is exact**, after every run of the engine; and a KNOWN
total that the completed work is within is never exceeded, whatever deltas are
reported. -/
theorem progress_accounts_exact :
    (∀ (store : Option σ) (calls : List EngineCall) (id : WorkloadId) (w : Workload),
      ((ofStore store).run calls).get id = some w → Accounts store calls id w) ∧
    ∀ w : Workload, w.progress.totalKind = .known → w.progress.completed ≤ w.progress.total →
      ∀ calls : List Workload.Call,
        (w.run calls).progress.totalKind = .known ∧
        (w.run calls).progress.total = w.progress.total ∧
        (w.run calls).progress.completed ≤ w.progress.total := by
  refine ⟨fun _ _ _ _ => accounts_of_run, fun w hk hle calls => ?_⟩
  have h := Workload.within_total ⟨hk, rfl, hle⟩ calls
  exact ⟨h.known, h.fixed, h.within⟩

/-- A durable report on a launched workload. -/
def launchAndReport : List EngineCall :=
  launch (.fromU64 1) {} ++ [.on (.fromU64 1) (.progress (.fromU64 1000) (.fromU64 1) 3 true)]

/-- The books of `launchAndReport`; and a delta that wraps around a reached total. -/
theorem progress_accounts_reported :
    Accounts (none : Option (MemoryStateStore .leftToRight)) launchAndReport (.fromU64 1)
      (((ofStore (none : Option (MemoryStateStore .leftToRight))).run launchAndReport).snapshot
        (.fromU64 1)) ∧
    (({ progress := { totalKind := .known, total := 5, completed := 5 } } : Workload).run
      [(.reportProgress {} {} (0 - 1) true, none)]).progress.completed ≤ 5 :=
  ⟨(progress_accounts_exact (σ := MemoryStateStore .leftToRight)).1 _ _ _ _ rfl,
    ((progress_accounts_exact (σ := MemoryStateStore .leftToRight)).2 _ rfl (by decide) _).2.2⟩

end WorkloadEngine

end WorkloadFabric
