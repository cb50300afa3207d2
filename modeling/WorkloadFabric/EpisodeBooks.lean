/-
The books of the single episodes.

An episode begins with the progress of the workload, and as long as it is the last one
the reports on the workload are credited to it.  Then another one begins, and nobody
writes to its progress any more: neither a late report nor one that names an id which
occurs twice.  So an episode can be audited for itself, after any run.

* **`episode_books`** — the progress of each episode adds up the reports that were
  accepted until the next one began; that of the last episode is the progress of the
  workload, and it grows from episode to episode.
-/
import WorkloadFabric.ProgressAccounts
import WorkloadFabric.EpisodeSteps

namespace WorkloadFabric

open FirstMatch

namespace Workload

/-! ### One step -/

/-- At most one is pushed, and none with a report. -/
theorem Step.episodes_length_le_succ {w w' : Workload} {op : WorkloadOp} {o : Outcome}
    (h : Step w op o w') : w'.episodes.length ≤ w.episodes.length + 1 := by
  rcases h.granted_or with hg | ⟨-, rfl, -⟩
  · rw [h.episodes_eq hg, List.length_append, List.length_mapIdx]
    rcases w.newEpisode op with _ | ep
    · exact Nat.le_succ _
    · exact Nat.le_refl _
  · exact Nat.le_succ _

theorem Step.episodes_length_report {w w' : Workload} {episode : ExecutionEpisodeId}
    {gen : ExecutionEpisodeGeneration} {delta : UInt64} {durable : Bool} {o : Outcome}
    (h : Step w (.reportProgress episode gen delta durable) o w') :
    w'.episodes.length = w.episodes.length := by
  rcases h.granted_or with hg | ⟨-, rfl, -⟩
  · rw [h.episodes_eq hg, List.length_append, List.length_mapIdx]
    rfl
  · rfl

/-- Only a report writes to the progress of an episode. -/
theorem editAt_progress {w : Workload} {op : WorkloadOp} {i : ℕ} {e : Episode}
    (hop : ∀ episode gen delta durable, op = .reportProgress episode gen delta durable →
      w.place episode ≠ i) : (w.editAt op i e).progress = e.progress := by
  cases op with
  | reportProgress episode gen delta durable =>
    rw [editAt, if_neg (hop episode gen delta durable rfl)]
  | startEpisode | commitMigration => rfl
  | admitDispatch | commitCompletion | onWorkerLost | markEpisodeCompleted | markEpisodeFailed
  | completeSuspend =>
    rw [editAt]
    split <;> rfl
  | _ => rfl

/-- **Behind the last episode nothing is credited.** -/
theorem Step.progress_of_past {w w' : Workload} {op : WorkloadOp} {o : Outcome}
    (h : Step w op o w') (hauth : w.Authority) {i : ℕ} {e e' : Episode}
    (hlt : i + 1 < w'.episodes.length) (hi : w.episodes[i]? = some e)
    (hi' : w'.episodes[i]? = some e') : e'.progress = e.progress := by
  rcases h.episode_at hi with ⟨hg, heq⟩ | ⟨-, rfl, -⟩
  · rw [hi', Option.some_inj] at heq
    rw [heq]
    refine editAt_progress ?_
    rintro episode gen delta durable rfl rfl
    -- a report that is granted is credited to the last one
    obtain ⟨⟨ep, hf, -, ha⟩, -⟩ := hg
    rw [findEpisode_eq_getElem?] at hf
    have hlast := hauth.soleLast.place hf ha
    rw [h.episodes_length_report] at hlt
    omega
  · exact congrArg Episode.progress (Option.some.inj (hi'.symm.trans hi))

end Workload

namespace WorkloadEngine

variable {σ : Type}

/-! ### Up to the end of an episode -/

/-- The event finds no episode of `id` behind place `i`. -/
def Event.upTo (id : WorkloadId) (i : ℕ) (ev : Event σ) : Bool :=
  (ev.before.get id).all fun w => decide (w.episodes.length ≤ i + 1)

/-- The events until the episode behind place `i` began. -/
def upToEnd (id : WorkloadId) (i : ℕ) (evs : List (Event σ)) : List (Event σ) :=
  evs.filter (Event.upTo id i)

theorem Event.upTo_eq {id : WorkloadId} {i : ℕ} {ev : Event σ} {w : Workload}
    (h : ev.before.get id = some w) : ev.upTo id i = decide (w.episodes.length ≤ i + 1) := by
  rw [Event.upTo, h]
  rfl

/-- Nothing is booked behind the end, and only reports are booked before it. -/
theorem books_upToEnd_skip {id : WorkloadId} {i : ℕ} {evs : List (Event σ)} {ev : Event σ}
    {p : Progress} (h : Books id (upToEnd id i evs) p)
    (hev : ev.upTo id i = true → ev.report id = none) :
    Books id (upToEnd id i (evs ++ [ev])) p := by
  rw [upToEnd, List.filter_append, List.filter_singleton]
  cases hup : ev.upTo id i with
  | true => exact h.skip (hev hup)
  | false =>
    rw [Bool.cond_false, List.append_nil]
    exact h

/-- The credits of some of the events. -/
theorem credits_le {id : WorkloadId} {evs evs' : List (Event σ)} (h : evs.Sublist evs') :
    credits id evs ≤ credits id evs' :=
  (h.map _).sum_le_sum fun _ _ => Nat.zero_le _

theorem upToEnd_sublist {id : WorkloadId} {i j : ℕ} (hij : i ≤ j) (evs : List (Event σ)) :
    (upToEnd id i evs).Sublist (upToEnd id j evs) := by
  refine List.monotone_filter_right evs fun ev hev => ?_
  rw [Event.upTo, Option.all_eq_true] at hev ⊢
  intro w hw
  have hle := of_decide_eq_true (hev w hw)
  exact decide_eq_true (by omega)

variable [StateStore σ]

/-! ### Runs -/

/-- No event finds more episodes than there are, and the books of the past ones are closed. -/
structure Closed (store : Option σ) (id : WorkloadId) (calls : List EngineCall)
    (w : Workload) : Prop where
  found : ∀ ev ∈ (ofStore store).events calls, ∀ w₀, ev.before.get id = some w₀ →
    w₀.episodes.length ≤ w.episodes.length
  past : ∀ (i : ℕ) (ep : Episode), i + 1 < w.episodes.length → w.episodes[i]? = some ep →
    Books id (upToEnd id i ((ofStore store).events calls)) ep.progress

/-- The last episode mirrors the progress of the workload. -/
theorem mirror_last {store : Option σ} {calls : List EngineCall} {id : WorkloadId}
    {w : Workload} (h : ((ofStore store).run calls).get id = some w) {i : ℕ} {ep : Episode}
    (hi : w.episodes[i]? = some ep) (hlast : i + 1 = w.episodes.length) :
    ep.progress.completed = w.progress.completed ∧
      ep.progress.checkpointed = w.progress.checkpointed := by
  have hauth := authority_of_run h
  refine hauth.mirror ep (List.mem_of_getElem? hi) ?_
  rcases hauth.soleLast with hnil | ⟨init, a, heq, ha, -⟩
  · rw [hnil] at hi
    exact absurd hi (by simp)
  · rw [heq, List.length_append, List.length_singleton, Nat.add_right_cancel_iff] at hlast
    rw [heq, hlast, List.getElem?_concat_length, Option.some_inj] at hi
    rwa [← hi]

theorem Closed.books {store : Option σ} {calls : List EngineCall} {id : WorkloadId} {w : Workload}
    (hc : Closed store id calls w) (h : ((ofStore store).run calls).get id = some w) {i : ℕ}
    {ep : Episode} (hi : w.episodes[i]? = some ep) :
    Books id (upToEnd id i ((ofStore store).events calls)) ep.progress := by
  obtain ⟨hlt, -⟩ := List.getElem?_eq_some_iff.mp hi
  rcases Nat.lt_or_ge (i + 1) w.episodes.length with hpast | hlast
  · exact hc.past i ep hpast hi
  · -- no later episode has begun yet
    obtain ⟨hcompleted, hcheckpointed⟩ := mirror_last h hi (by omega)
    have hall : upToEnd id i ((ofStore store).events calls) = (ofStore store).events calls := by
      refine List.filter_eq_self.mpr fun ev hev => ?_
      rw [Event.upTo, Option.all_eq_true]
      intro w₀ hw₀
      have hle := hc.found ev hev w₀ hw₀
      exact decide_eq_true (by omega)
    have hbooks := books_of_run h
    rw [hall]
    exact ⟨by rw [hcompleted]; exact hbooks.completed,
      by rw [hcheckpointed]; exact hbooks.checkpointed⟩

/-- **The books are closed when the next episode begins**, in every run. -/
theorem closed_of_run {store : Option σ} {calls : List EngineCall} {id : WorkloadId}
    {w : Workload} (h : ((ofStore store).run calls).get id = some w) :
    Closed store id calls w := by
  -- the run comes along, so that its books are at hand
  suffices hboth : ((ofStore store).run calls).get id = some w ∧ Closed store id calls w from
    hboth.2
  refine workload_induction (P := fun calls w =>
    ((ofStore store).run calls).get id = some w ∧ Closed store id calls w) ?_ ?_ ?_ calls h
  · intro calls name intent policy hnone
    have hget : ((ofStore store).run (calls ++ [.create id name intent policy])).get id =
        some { Workload.create id name intent with policy := policy } := by
      rw [run_append_singleton, (step_create_none _ hnone name intent policy).2.2, if_pos rfl]
    refine ⟨hget, ⟨fun ev hev w₀ hw₀ => ?_, fun i ep hlt => absurd hlt (by simp [Workload.create])⟩⟩
    rw [events_append_singleton] at hev
    rcases List.mem_append.mp hev with hev | hev
    · rw [before_of_unregistered hnone ev hev] at hw₀
      exact absurd hw₀ (by simp)
    · rw [List.mem_singleton.mp hev] at hw₀
      exact absurd (hnone.symm.trans hw₀) (by simp)
  · intro calls c w hget hc hboth
    have hclosed := hboth.2
    refine ⟨by rw [run_append_singleton]; exact step_get_of_not_touches _ hget hc,
      ⟨fun ev hev w₀ hw₀ => ?_, fun i ep hlt hi => ?_⟩⟩
    · rw [events_append_singleton] at hev
      rcases List.mem_append.mp hev with hev | hev
      · exact hclosed.found ev hev w₀ hw₀
      · rw [List.mem_singleton.mp hev] at hw₀
        obtain rfl := Option.some.inj (hget.symm.trans hw₀)
        exact Nat.le_refl _
    · rw [events_append_singleton]
      refine books_upToEnd_skip (hclosed.past i ep hlt hi) fun _ => ?_
      cases hr : (observe ((ofStore store).run calls) c).report id with
      | none => rfl
      | some r =>
        obtain ⟨episode, gen, hcall, -⟩ := Event.report_eq_some.mp (Prod.mk.eta (p := r) ▸ hr)
        rw [show c = _ from hcall] at hc
        exact absurd rfl hc
  · intro calls r w hget hboth
    have hclosed := hboth.2
    obtain ⟨w', hw', hs⟩ := step_on_step _ hget r
    have hw'' := ((ofStore store).run calls).step_on_some hget r
    rw [hw''.2.2, if_pos rfl, Option.some_inj] at hw'
    rw [hw']
    refine ⟨by rw [run_append_singleton, hw''.2.2, if_pos rfl, hw'],
      ⟨fun ev hev w₀ hw₀ => ?_, fun i ep hlt hi => ?_⟩⟩
    · rw [events_append_singleton] at hev
      rcases List.mem_append.mp hev with hev | hev
      · exact (hclosed.found ev hev w₀ hw₀).trans hs.length_le
      · rw [List.mem_singleton.mp hev] at hw₀
        obtain rfl := Option.some.inj (hget.symm.trans hw₀)
        exact hs.length_le
    · have hold : i < w.episodes.length := by
        have hle := hs.episodes_length_le_succ
        omega
      have hi₀ := List.getElem?_eq_getElem hold
      rw [events_append_singleton, hs.progress_of_past (authority_of_run hget) hlt hi₀ hi]
      refine books_upToEnd_skip (hclosed.books hget hi₀) fun hup => ?_
      rw [Event.upTo_eq hget, decide_eq_true_iff] at hup
      cases hr : (observe ((ofStore store).run calls) (.on id r)).report id with
      | none => rfl
      | some report =>
        -- a report pushes no episode, so it finds the next one there already
        obtain ⟨episode, gen, hcall, -⟩ := Event.report_eq_some.mp (Prod.mk.eta (p := report) ▸ hr)
        obtain rfl : r = _ := (EngineCall.on.inj hcall).2
        rw [hs.episodes_length_report] at hlt
        omega

/-- **The books of every episode are exact**, after every run: its completed work is the sum of
the reports that were accepted until the next episode began, and its checkpoint the sum of those
up to the last durable one among them; the books grow from episode to episode, and the last ones
are those of the workload. -/
theorem episode_books {store : Option σ} {calls : List EngineCall} {id : WorkloadId}
    {w : Workload} (h : ((ofStore store).run calls).get id = some w) {i : ℕ} {ep : Episode}
    (hi : w.episodes[i]? = some ep) :
    ep.progress.completed.toNat =
        credits id (upToEnd id i ((ofStore store).events calls)) ∧
      ep.progress.checkpointed.toNat =
        credits id (upToDurable id (upToEnd id i ((ofStore store).events calls))) ∧
      (∀ j ep', i ≤ j → w.episodes[j]? = some ep' →
        ep.progress.completed ≤ ep'.progress.completed) ∧
      (i + 1 = w.episodes.length → ep.progress.completed = w.progress.completed ∧
        ep.progress.checkpointed = w.progress.checkpointed) := by
  have hclosed := closed_of_run h
  have hbooks := hclosed.books h hi
  refine ⟨hbooks.completed, hbooks.checkpointed, fun j ep' hij hj => ?_, mirror_last h hi⟩
  rw [UInt64.le_iff_toNat_le, hbooks.completed, (hclosed.books h hj).completed]
  exact credits_le (upToEnd_sublist hij _)

/-- A report, a migration, and a report on either episode. -/
def reportAcrossMigration : List EngineCall :=
  launch (.fromU64 1) { migration := { eligibility := .planOnly } } ++
    [.on (.fromU64 1) (.admitDispatch (.fromU64 1000) (.fromU64 1) (.fromU64 1)),
      .on (.fromU64 1) (.progress (.fromU64 1000) (.fromU64 1) 3 true),
      .on (.fromU64 1) (.requestMigration (.fromU64 2)),
      .on (.fromU64 1) (.commitMigration (.fromU64 2) (.fromU64 2) (.fromU64 1)),
      .on (.fromU64 1) (.progress (.fromU64 1000) (.fromU64 1) 4 true),
      .on (.fromU64 1) (.progress (.fromU64 2000) (.fromU64 1) 5 false)]

/-- The first episode keeps what it had. -/
theorem episode_books_migrated :
    ∃ w ep, ((ofStore (none : Option (MemoryStateStore .leftToRight))).run
        reportAcrossMigration).get (.fromU64 1) = some w ∧ w.episodes[0]? = some ep ∧
      ep.progress.completed = 3 ∧ w.progress.completed = 8 ∧
      ep.progress.completed.toNat = credits (.fromU64 1) (upToEnd (.fromU64 1) 0
        ((ofStore (none : Option (MemoryStateStore .leftToRight))).events
          reportAcrossMigration)) := by
  obtain ⟨w, ep, h, hi, hthree, height⟩ :
      ∃ w ep, ((ofStore (none : Option (MemoryStateStore .leftToRight))).run
          reportAcrossMigration).get (.fromU64 1) = some w ∧ w.episodes[0]? = some ep ∧
        ep.progress.completed = 3 ∧ w.progress.completed = 8 :=
    ⟨_, _, rfl, rfl, by decide, by decide⟩
  exact ⟨w, ep, h, hi, hthree, height, (episode_books h hi).1⟩

end WorkloadEngine

end WorkloadFabric
