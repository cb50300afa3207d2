/-
How long an episode stays finished.

An episode is finished once it is LOST, CANCELLED, COMPLETED or FAILED.  Its state and
its marks have no transition table: a loss report, the two reports of an ending and a
suspension write them wherever the episode stands (`Overwrites`), and every other
operation leaves a finished episode as it is.

* **`finished_stays_iff`** — in every run, of a workload or of an engine, the finished
  episodes stay finished exactly when no operation overwrites one;
* **`late_loss_overwrites`** — a loss reported after the end makes a COMPLETED episode
  LOST.
-/
import WorkloadFabric.EpisodeSteps

namespace WorkloadFabric

namespace Episode

/-- The states an episode should not leave. -/
def Finished (e : Episode) : Prop :=
  e.state = .lost ∨ e.state = .cancelled ∨ e.state = .completed ∨ e.state = .failed

instance (e : Episode) : Decidable e.Finished := inferInstanceAs (Decidable (_ ∨ _))

/-- The end that `e` has come to is still on record in `e'`. -/
structure Keeps (e e' : Episode) : Prop where
  state : e'.state = e.state
  workerLost : e.workerLost = true → e'.workerLost = true
  failed : e.failed = true → e'.failed = true
  completed : e.completed = true → e'.completed = true

namespace Keeps

protected theorem refl (e : Episode) : Keeps e e := ⟨rfl, fun h => h, fun h => h, fun h => h⟩

theorem trans {e e' e'' : Episode} (h : Keeps e e') (h' : Keeps e' e'') : Keeps e e'' :=
  ⟨h'.state.trans h.state, fun hm => h'.workerLost (h.workerLost hm),
    fun hm => h'.failed (h.failed hm), fun hm => h'.completed (h.completed hm)⟩

/-- Only marks are set. -/
theorem of_marked {e e' : Episode} (hs : e'.state = e.state) (hl : e'.workerLost = e.workerLost)
    (hf : e'.failed = e.failed) (hc : e'.completed = e.completed ∨ e'.completed = true) :
    Keeps e e' :=
  ⟨hs, fun hm => hl.trans hm, fun hm => hf.trans hm, fun hm => hc.elim (·.trans hm) fun h => h⟩

end Keeps

theorem Finished.of_keeps {e e' : Episode} (h : e.Finished) (hk : Keeps e e') : e'.Finished := by
  rwa [Finished, hk.state]

end Episode

namespace Workload

/-- The finished episodes of `w` are still finished in `w'`, each at its place. -/
def FinishedKept (w w' : Workload) : Prop :=
  ∀ (i : ℕ) (e : Episode), w.episodes[i]? = some e → e.Finished →
    ∃ e', w'.episodes[i]? = some e' ∧ e.Keeps e'

theorem FinishedKept.refl (w : Workload) : FinishedKept w w := fun _ e hi _ =>
  ⟨e, hi, .refl e⟩

theorem FinishedKept.trans {w w' w'' : Workload} (h : FinishedKept w w')
    (h' : FinishedKept w' w'') : FinishedKept w w'' := by
  intro i e hi hf
  obtain ⟨e', hi', hk⟩ := h i e hi hf
  obtain ⟨e'', hi'', hk'⟩ := h' i e' hi' (hf.of_keeps hk)
  exact ⟨e'', hi'', hk.trans hk'⟩

/-- The operation writes another state over that of a finished episode. -/
def Overwrites (w : Workload) : WorkloadOp → Prop
  | .onWorkerLost worker boot g => g = w.generation ∧ ∃ ep, w.currentEpisode = some ep ∧
    ep.worker = worker ∧ ep.boot = boot ∧ ep.Finished ∧ ep.state ≠ .lost
  | .markEpisodeCompleted id => ∃ ep, w.findEpisode id = some ep ∧ ep.Finished ∧
    ep.state ≠ .completed
  | .markEpisodeFailed id => ∃ ep, w.findEpisode id = some ep ∧ ep.Finished ∧ ep.state ≠ .failed
  | .completeSuspend g => g = w.generation ∧
    (w.state = .suspendRequested ∨ w.state = .suspending) ∧
    ∃ ep, w.currentEpisode = some ep ∧ ep.Finished
  | _ => False

/-- An operation that overwrites is granted, and the episode it rewrites shows it. -/
theorem exists_edit_of_overwrites {w : Workload} {op : WorkloadOp} (h : w.Overwrites op) :
    w.Granted op ∧ ∃ (i : ℕ) (e : Episode),
      w.episodes[i]? = some e ∧ e.Finished ∧ (w.editAt op i e).state ≠ e.state := by
  cases op with
  | onWorkerLost worker boot g =>
    obtain ⟨hg, ep, hc, hw, hb, hf, hne⟩ := h
    refine ⟨⟨hg, ep, hc, hw, hb⟩, w.currentPlace, ep, ?_, hf, ?_⟩
    · exact hc ▸ w.currentEpisode_eq_getElem?.symm
    rw [editAt, if_pos rfl]
    exact hne.symm
  | markEpisodeCompleted id =>
    obtain ⟨ep, hfind, hf, hne⟩ := h
    refine ⟨⟨ep, hfind⟩, w.place id, ep, hfind ▸ (w.findEpisode_eq_getElem? id).symm, hf, ?_⟩
    rw [editAt, if_pos rfl]
    exact hne.symm
  | markEpisodeFailed id =>
    obtain ⟨ep, hfind, hf, hne⟩ := h
    refine ⟨⟨ep, hfind⟩, w.place id, ep, hfind ▸ (w.findEpisode_eq_getElem? id).symm, hf, ?_⟩
    rw [editAt, if_pos rfl]
    exact hne.symm
  | completeSuspend g =>
    obtain ⟨hg, hst, ep, hc, hf⟩ := h
    have hne : w.state ≠ .suspended := by
      rintro heq
      rw [heq] at hst
      exact absurd hst (by decide)
    refine ⟨⟨hg, .inr hst⟩, w.currentPlace, ep, hc ▸ w.currentEpisode_eq_getElem?.symm, hf, ?_⟩
    rw [editAt, if_pos ⟨rfl, hne⟩]
    rintro hs
    -- SUSPENDED is no end
    have hs : EpisodeState.suspended = ep.state := hs
    rw [Episode.Finished, ← hs] at hf
    exact absurd hf (by decide)
  | _ => exact h.elim

/-- A granted operation that overwrites nothing keeps the end an episode has come to. -/
theorem keeps_editAt {w : Workload} {op : WorkloadOp} (hg : w.Granted op)
    (hov : ¬w.Overwrites op) {i : ℕ} {e : Episode} (hi : w.episodes[i]? = some e)
    (hf : e.Finished) : e.Keeps (w.editAt op i e) := by
  cases op with
  | startEpisode | commitMigration => exact .of_marked rfl rfl rfl (.inl rfl)
  | admitDispatch episode worker boot =>
    rw [editAt]
    split
    case isTrue hp =>
      -- a finished episode is not dispatched
      obtain ⟨ep, hfind, hd⟩ := hg
      obtain rfl := Option.some.inj ((findEpisode_of_place hp hi).symm.trans hfind)
      rcases hd with hd | hd <;> exact absurd hf (by rw [Episode.Finished, hd]; decide)
    case isFalse => exact .refl e
  | reportProgress =>
    rw [editAt]
    split
    · exact .of_marked rfl rfl rfl (.inl rfl)
    · exact .refl e
  | commitCompletion =>
    rw [editAt]
    split
    · exact .of_marked rfl rfl rfl (.inr rfl)
    · exact .refl e
  | onWorkerLost worker boot g =>
    rw [editAt]
    split
    case isTrue hp =>
      obtain ⟨hg, ep, hc, hw, hb⟩ := hg
      obtain rfl := Option.some.inj ((currentEpisode_of_place hp hi).symm.trans hc)
      have hs : e.state = .lost := by
        by_contra hne
        exact hov ⟨hg, e, hc, hw, hb, hf, hne⟩
      exact ⟨hs.symm, fun _ => rfl, fun hm => hm, fun hm => hm⟩
    case isFalse => exact .refl e
  | markEpisodeCompleted id =>
    rw [editAt]
    split
    case isTrue hp =>
      have hs : e.state = .completed := by
        by_contra hne
        exact hov ⟨e, findEpisode_of_place hp hi, hf, hne⟩
      exact .of_marked hs.symm rfl rfl (.inr rfl)
    case isFalse => exact .refl e
  | markEpisodeFailed id =>
    rw [editAt]
    split
    case isTrue hp =>
      have hs : e.state = .failed := by
        by_contra hne
        exact hov ⟨e, findEpisode_of_place hp hi, hf, hne⟩
      exact ⟨hs.symm, fun hm => hm, fun _ => rfl, fun hm => hm⟩
    case isFalse => exact .refl e
  | completeSuspend g =>
    rw [editAt]
    split
    case isTrue hp =>
      have hst := hg.2.resolve_left hp.2
      exact absurd ⟨hg.1, hst, e, currentEpisode_of_place hp.1 hi, hf⟩ hov
    case isFalse => exact .refl e
  | _ => exact .refl e

/-- **Finished episodes stay finished over a step exactly when it overwrites none.** -/
theorem Step.finishedKept_iff {w w' : Workload} {op : WorkloadOp} {o : Outcome}
    (h : Step w op o w') : w.FinishedKept w' ↔ ¬w.Overwrites op := by
  constructor
  · -- the episode overwritten is found at its place, in another state
    intro hk hov
    obtain ⟨hg, i, e, hi, hf, hne⟩ := exists_edit_of_overwrites hov
    obtain ⟨e', hi', hkeeps⟩ := hk i e hi hf
    rcases h.episode_at hi with ⟨-, he⟩ | ⟨hn, -⟩
    · obtain rfl := Option.some.inj (he.symm.trans hi')
      exact hne hkeeps.state
    · exact hn hg
  · intro hov i e hi hf
    rcases h.episode_at hi with ⟨hg, he⟩ | ⟨-, rfl, -⟩
    · exact ⟨_, he, keeps_editAt hg hov hi hf⟩
    · exact ⟨e, hi, .refl e⟩

end Workload

namespace WorkloadEngine

/-! ### Runs -/

/-- **Finished episodes stay finished in a run exactly when no operation overwrites one**,
whether the operations are a caller's or an engine's. -/
theorem finished_stays_iff {σ : Type} [StateStore σ] (id : WorkloadId) :
    (∀ (name intent : Text) (calls : List Workload.Call),
      (∀ pre mid post, calls = pre ++ mid ++ post →
        ((Workload.create id name intent).run pre).FinishedKept
          ((Workload.create id name intent).run (pre ++ mid))) ↔
      ∀ pre c post, calls = pre ++ c :: post →
        ¬((Workload.create id name intent).run pre).Overwrites c.1) ∧
    ∀ (store : Option σ) (calls : List EngineCall),
      (∀ pre mid post w w', calls = pre ++ mid ++ post →
        ((ofStore store).run pre).get id = some w →
        ((ofStore store).run (pre ++ mid)).get id = some w' → w.FinishedKept w') ↔
      Performing (ofStore store) id (fun w op => ¬w.Overwrites op) calls := by
  constructor
  · intro name intent calls
    have hkeep (w : Workload) (c : Workload.Call) :
        w.FinishedKept (w.apply c.1 c.2).workload ↔ ¬w.Overwrites c.1 :=
      (w.apply_step c.2 c.1).finishedKept_iff
    exact (Machine.kept_iff_along Workload.FinishedKept.refl
      (fun h h' => Workload.FinishedKept.trans h h') hkeep).trans Machine.along_iff
  · exact fun store calls => kept_iff_performing Workload.FinishedKept.refl
      (fun h h' => Workload.FinishedKept.trans h h') (fun hs => hs.finishedKept_iff)
      (ofStore store) id calls

/-- A launched workload whose only episode is reported completed. -/
def launchAndEnd : List EngineCall :=
  launch (.fromU64 1) {} ++
    [.on (.fromU64 1) (.admitDispatch (.fromU64 1000) (.fromU64 1) (.fromU64 1)),
      .on (.fromU64 1) (.episodeCompleted (.fromU64 1000))]

/-- A loss reported after the end makes the COMPLETED episode LOST. -/
theorem late_loss_overwrites :
    ¬∀ (id : WorkloadId) (calls pre mid post : List EngineCall) (w w' : Workload),
      calls = pre ++ mid ++ post →
      ((ofStore (none : Option (MemoryStateStore .leftToRight))).run pre).get id = some w →
      ((ofStore (none : Option (MemoryStateStore .leftToRight))).run (pre ++ mid)).get id
        = some w' → w.FinishedKept w' := by
  intro h
  have hkept := h (.fromU64 1) _ launchAndEnd
    [.on (.fromU64 1) (.onWorkerLost (.fromU64 1) (.fromU64 1) (.fromU64 2))] [] _ _ rfl rfl rfl
  obtain ⟨e', hi', hk⟩ := hkept 0 _ rfl (by decide)
  obtain rfl := Option.some.inj hi'
  exact absurd hk.state (by decide)

end WorkloadEngine

end WorkloadFabric
