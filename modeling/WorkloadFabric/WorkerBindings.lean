/-
Which worker an episode is bound to.

An accepted dispatch binds the episode it names to a worker, an accepted migration the
episode it brings (`binds`).  No operation makes an episode dispatchable again, so the
bindings of a run are made once for each place of the list and stay as they were made
(`Bound`).

* **`bindings_write_once`** — after every run each episode is bound at most once, to
  the worker it still has; a loss is accepted only of the worker the authoritative
  episode is bound to, and any other report with a valid boot changes nothing.
-/
import WorkloadFabric.DispatchFence
import WorkloadFabric.EpisodeSteps
import WorkloadFabric.StaleCalls

namespace WorkloadFabric

open FirstMatch

namespace Workload

/-- The place, the worker and the boot that the operation binds if it is accepted. -/
def binds (w : Workload) : WorkloadOp → Option (ℕ × WorkerId × WorkerBootId)
  | .admitDispatch episode worker boot => some (w.place episode, worker, boot)
  | .commitMigration _ worker boot => some (w.episodes.length, worker, boot)
  | _ => none

/-- An operation that binds a worker is accepted once it has passed its guards. -/
theorem Step.allow_of_binds {w w' : Workload} {op : WorkloadOp} {o : Outcome}
    (h : Step w op o w') (hg : w.Granted op) (hb : w.binds op ≠ none) : o = .allow := by
  cases h with
  | rejected _ hn => exact absurd hg hn
  | dispatch => rfl
  | commitMigration => rfl
  | _ => exact absurd rfl hb

/-- **An edit leaves the worker of an episode alone**, and makes no episode dispatchable,
unless it is the dispatch of a dispatchable one. -/
theorem editAt_worker {w : Workload} {op : WorkloadOp} (hg : w.Granted op) {i : ℕ} {e : Episode}
    (hi : w.episodes[i]? = some e) :
    ((w.editAt op i e).worker = e.worker ∧ (w.editAt op i e).boot = e.boot ∧
      ((w.editAt op i e).Dispatchable → e.Dispatchable)) ∨
    ∃ episode worker boot, op = .admitDispatch episode worker boot ∧ w.place episode = i ∧
      e.Dispatchable ∧ w.editAt op i e = bindWorker worker boot e := by
  have hsplit {p : Prop} [Decidable p] {f : Episode → Episode} (hw : (f e).worker = e.worker)
      (hb : (f e).boot = e.boot) (hd : (f e).Dispatchable → e.Dispatchable) :
      (if p then f e else e).worker = e.worker ∧ (if p then f e else e).boot = e.boot ∧
        ((if p then f e else e).Dispatchable → e.Dispatchable) := by
    split
    · exact ⟨hw, hb, hd⟩
    · exact ⟨rfl, rfl, fun h => h⟩
  have hnever {e' : Episode} (s : EpisodeState) (hs : e'.state = s)
      (hne : s ≠ .admitted ∧ s ≠ .preempted) : e'.Dispatchable → e.Dispatchable :=
    fun hd => absurd hd (Episode.not_dispatchable s hs hne)
  cases op with
  | admitDispatch episode worker boot =>
    by_cases hp : w.place episode = i
    · obtain ⟨ep, hf, hd⟩ := hg
      obtain rfl := Option.some.inj ((findEpisode_of_place hp hi).symm.trans hf)
      exact .inr ⟨episode, worker, boot, rfl, hp, hd, if_pos hp⟩
    · left
      rw [editAt, if_neg hp]
      exact ⟨rfl, rfl, fun h => h⟩
  | reportProgress => exact .inl (hsplit rfl rfl fun h => h)
  | commitCompletion => exact .inl (hsplit (f := fun e => { e with completed := true }) rfl rfl
      fun h => h)
  | onWorkerLost => exact .inl (hsplit rfl rfl (hnever .lost rfl (by decide)))
  | markEpisodeCompleted => exact .inl (hsplit rfl rfl (hnever .completed rfl (by decide)))
  | markEpisodeFailed => exact .inl (hsplit rfl rfl (hnever .failed rfl (by decide)))
  | completeSuspend => exact .inl (hsplit rfl rfl (hnever .suspended rfl (by decide)))
  | _ => exact .inl ⟨rfl, rfl, fun h => h⟩

/-! ### The bindings of a run -/

/-- The bindings made so far hold, each was made once, and no other episode has a
worker. -/
structure Bound (bs : List (ℕ × WorkerId × WorkerBootId)) (w : Workload) : Prop where
  once : (bs.map (·.1)).Nodup
  held : ∀ i worker boot, (i, worker, boot) ∈ bs → ∃ ep, w.episodes[i]? = some ep ∧
    ep.worker = worker ∧ ep.boot = boot ∧ ¬ep.Dispatchable
  free : ∀ (i : ℕ) (ep : Episode), w.episodes[i]? = some ep → i ∉ bs.map (·.1) →
    ep.worker = {} ∧ ep.boot = {}

theorem Bound.create (id : WorkloadId) (name intent : Text) (policy : Policy) :
    Bound [] { create id name intent with policy := policy } where
  once := List.nodup_nil
  held _ _ _ h := absurd h List.not_mem_nil
  free i ep h := absurd h (by simp [Workload.create])

/-- The place that is to be bound was never bound before. -/
theorem Bound.fresh {bs : List (ℕ × WorkerId × WorkerBootId)} {w : Workload} (h : Bound bs w)
    {op : WorkloadOp} (hg : w.Granted op) {i : ℕ} {worker : WorkerId} {boot : WorkerBootId}
    (hb : w.binds op = some (i, worker, boot)) : i ∉ bs.map (·.1) := by
  intro hmem
  obtain ⟨⟨_, worker', boot'⟩, hbs, rfl⟩ := List.mem_map.mp hmem
  obtain ⟨ep, hi, -, -, hnd⟩ := h.held _ _ _ hbs
  cases op with
  | admitDispatch episode =>
    obtain ⟨rfl, -⟩ := Prod.mk.inj (Option.some.inj hb)
    obtain ⟨ep', hf, hd⟩ := hg
    obtain rfl := Option.some.inj ((findEpisode_of_place rfl hi).symm.trans hf)
    exact hnd hd
  | commitMigration =>
    obtain ⟨rfl, -⟩ := Prod.mk.inj (Option.some.inj hb)
    exact absurd (List.getElem?_eq_some_iff.mp hi).1 (Nat.lt_irrefl _)
  | _ => exact absurd hb (by simp [binds])

/-- **What a step binds joins the bindings, and those made before still hold.** -/
theorem Bound.step {bs : List (ℕ × WorkerId × WorkerBootId)} {w w' : Workload} {op : WorkloadOp}
    {o : Outcome} (h : Bound bs w) (hs : Step w op o w') :
    Bound (bs ++ (if o = .allow then w.binds op else none).toList) w' := by
  rcases hs.granted_or with hg | ⟨-, rfl, ho⟩
  case inr =>
    rw [if_neg ho]
    simpa using h
  have hbs : (if o = .allow then w.binds op else none) = w.binds op := by
    by_cases hb : w.binds op = none
    · rw [hb, ite_self]
    · rw [if_pos (hs.allow_of_binds hg hb)]
  rw [hbs]
  have hat {i : ℕ} {e : Episode} (hi : w.episodes[i]? = some e) :
      w'.episodes[i]? = some (w.editAt op i e) := by
    rcases hs.episode_at hi with ⟨-, he⟩ | ⟨hn, -⟩
    · exact he
    · exact absurd hg hn
  refine ⟨?_, ?_, ?_⟩
  · rcases hb : w.binds op with _ | ⟨i, worker, boot⟩
    · simpa using h.once
    · rw [Option.toList_some, List.map_append, List.map_singleton, List.nodup_append_comm]
      exact List.nodup_cons.mpr ⟨h.fresh hg hb, h.once⟩
  · intro i worker boot hmem
    rcases List.mem_append.mp hmem with hmem | hmem
    · obtain ⟨ep, hi, hw, hb, hnd⟩ := h.held i worker boot hmem
      refine ⟨_, hat hi, ?_⟩
      rcases editAt_worker hg hi with ⟨hw', hb', hd⟩ | ⟨-, -, -, -, -, hd, -⟩
      · exact ⟨hw'.trans hw, hb'.trans hb, fun hd' => hnd (hd hd')⟩
      · exact absurd hd hnd
    · -- the binding just made
      cases op with
      | admitDispatch =>
        obtain ⟨rfl, rfl, rfl⟩ := by simpa [binds] using hmem
        obtain ⟨ep, hf, -⟩ := hg
        refine ⟨_, hat ((w.findEpisode_eq_getElem? _).symm.trans hf), ?_⟩
        rw [editAt, if_pos rfl]
        exact ⟨rfl, rfl, Episode.not_dispatchable .running rfl (by decide)⟩
      | commitMigration =>
        obtain ⟨rfl, rfl, rfl⟩ := by simpa [binds] using hmem
        refine ⟨_, (hs.episode_new hg (Nat.le_refl _)).mpr ⟨rfl, rfl⟩, rfl, rfl, ?_⟩
        exact Episode.not_dispatchable .running rfl (by decide)
      | _ => exact absurd hmem List.not_mem_nil
  · intro i ep hi hn
    rw [List.map_append, List.mem_append, not_or] at hn
    rcases Nat.lt_or_ge i w.episodes.length with hlt | hge
    · have he := List.getElem?_eq_getElem hlt
      obtain rfl := Option.some.inj ((hat he).symm.trans hi)
      rcases editAt_worker hg he with ⟨hw, hb, -⟩ | ⟨episode, worker, boot, rfl, hp, -⟩
      · obtain ⟨hw', hb'⟩ := h.free i _ he hn.1
        exact ⟨hw.trans hw', hb.trans hb'⟩
      · exact absurd (by simp [binds, hp]) hn.2
    · obtain ⟨rfl, hnew⟩ := (hs.episode_new hg hge).mp hi
      cases op with
      | startEpisode =>
        obtain rfl := Option.some.inj hnew
        exact ⟨rfl, rfl⟩
      | commitMigration => exact absurd (by simp [binds]) hn.2
      | _ => exact absurd hnew (by simp [newEpisode])

/-! ### Losses -/

/-- A loss report is accepted, or changes nothing. -/
theorem Step.lost_or {w w' : Workload} {worker : WorkerId} {boot : WorkerBootId}
    {g : WorkloadGeneration} {o : Outcome} (h : Step w (.onWorkerLost worker boot g) o w') :
    o = .allow ∨ w' = w := by
  cases h with
  | rejected => exact .inr rfl
  | lost => exact .inl rfl

/-- The current episode is the authoritative one. -/
theorem authoritative_of_current {w : Workload} (h : SoleLast (·.authoritative) w.episodes)
    {ep : Episode} (hc : w.currentEpisode = some ep) : ep.authoritative = true := by
  have hne : w.episodes ≠ [] := by
    intro hnil
    rw [Workload.currentEpisode, hnil] at hc
    exact absurd hc (by simp)
  obtain ⟨a, ha, hauth⟩ := h.find?_isSome hne
  rw [Workload.currentEpisode, ha, Option.some_or] at hc
  exact Option.some.inj hc ▸ hauth

/-- The authoritative episode of `w` is the one at place `i`. -/
def AuthoritativeAt (w : Workload) (i : ℕ) : Prop :=
  (∃ ep, w.episodes[i]? = some ep ∧ ep.authoritative = true) ∧
    ∀ (j : ℕ) (e : Episode), w.episodes[j]? = some e → e.authoritative = true → j = i

theorem authoritativeAt_of {w : Workload} (h : SoleLast (·.authoritative) w.episodes) {i : ℕ}
    {ep : Episode} (hi : w.episodes[i]? = some ep) (ha : ep.authoritative = true) :
    w.AuthoritativeAt i := by
  refine ⟨⟨ep, hi, ha⟩, fun j e hj he => ?_⟩
  have hlast := h.place hi ha
  have hlast' := h.place hj he
  omega

/-- The current episode stands at the authoritative place. -/
theorem authoritativeAt_iff {w : Workload} (h : SoleLast (·.authoritative) w.episodes) {i : ℕ} :
    w.AuthoritativeAt i ↔ i = w.currentPlace ∧ ∃ ep, w.currentEpisode = some ep := by
  constructor
  · rintro ⟨⟨ep, hi, ha⟩, honly⟩
    have hsome : w.currentEpisode.isSome = true := by
      have hfind : (w.episodes.find? (·.authoritative)).isSome = true :=
        List.find?_isSome.mpr ⟨ep, List.mem_of_getElem? hi, ha⟩
      rw [currentEpisode, Option.isSome_or, hfind, Bool.true_or]
    obtain ⟨cur, hcur⟩ := Option.isSome_iff_exists.mp hsome
    have hplace := w.currentEpisode_eq_getElem?.symm.trans hcur
    exact ⟨(honly _ cur hplace (authoritative_of_current h hcur)).symm, cur, hcur⟩
  · rintro ⟨rfl, ep, hep⟩
    exact authoritativeAt_of h (w.currentEpisode_eq_getElem?.symm.trans hep)
      (authoritative_of_current h hep)

/-- **Only the bound worker can be lost**, as long as the boot reported is a valid one. -/
theorem Bound.lost {bs : List (ℕ × WorkerId × WorkerBootId)} {w w' : Workload} (h : Bound bs w)
    (hauth : w.Authority) {worker : WorkerId} {boot : WorkerBootId} {g : WorkloadGeneration}
    (hboot : boot.valid = true) (hs : Step w (.onWorkerLost worker boot g) .allow w') :
    ∃ i, w.AuthoritativeAt i ∧ (i, worker, boot) ∈ bs := by
  obtain ⟨-, ep, hc, rfl, rfl⟩ := hs.granted
  have hi := w.currentEpisode_eq_getElem?.symm.trans hc
  refine ⟨w.currentPlace, (authoritativeAt_iff hauth.soleLast).mpr ⟨rfl, ep, hc⟩, ?_⟩
  by_cases hmem : w.currentPlace ∈ bs.map (·.1)
  · obtain ⟨⟨_, worker', boot'⟩, hbs, heq⟩ := List.mem_map.mp hmem
    obtain rfl : _ = w.currentPlace := heq
    obtain ⟨ep', hi', rfl, rfl, -⟩ := h.held _ _ _ hbs
    obtain rfl := Option.some.inj (hi'.symm.trans hi)
    exact hbs
  · rw [(h.free _ ep hi hmem).2] at hboot
    exact absurd hboot (by decide)

end Workload

namespace WorkloadEngine

variable {σ : Type}

/-! ### Runs -/

/-- What the event binds of `id`. -/
def Event.binds (id : WorkloadId) (ev : Event σ) : Option (ℕ × WorkerId × WorkerBootId) :=
  (ev.performed id).bind fun p => p.1.binds p.2

/-- The bindings of `id` that the events make, in their order. -/
def bindings (id : WorkloadId) (evs : List (Event σ)) : List (ℕ × WorkerId × WorkerBootId) :=
  evs.filterMap (Event.binds id)

theorem bindings_append (id : WorkloadId) (evs : List (Event σ)) (ev : Event σ) :
    bindings id (evs ++ [ev]) = bindings id evs ++ (ev.binds id).toList := by
  rw [bindings, List.filterMap_append]
  rcases h : ev.binds id with _ | b <;> simp [bindings, h]

theorem Event.binds_of_silent {id : WorkloadId} {ev : Event σ} (h : ev.accepted id = none) :
    ev.binds id = none := by
  rw [Event.binds, Event.performed_of_silent h]
  rfl

variable [StateStore σ]

/-- The bindings of a run hold after it. -/
theorem bound_of_run {store : Option σ} {calls : List EngineCall} {id : WorkloadId}
    {w : Workload} (h : ((ofStore store).run calls).get id = some w) :
    w.Bound (bindings id ((ofStore store).events calls)) := by
  refine history_induction (P := fun evs w => w.Bound (bindings id evs)) ?_ ?_ ?_ calls h
  · intro evs name intent policy hsilent
    rw [bindings,
      List.filterMap_eq_nil_iff.mpr fun ev hev => Event.binds_of_silent (hsilent ev hev)]
    exact .create id name intent policy
  · intro evs ev w hev hw
    rw [bindings_append, Event.binds_of_silent hev]
    simpa using hw
  · intro evs e r w w' hget hw hs
    have hbinds : (e.observe (.on id r)).binds id =
        if (e.step (.on id r)).1.outcome = .allow then w.binds (r.operation e.episodeCounter w)
        else none := by
      rw [Event.binds, performed_observe hget]
      split <;> rfl
    rw [bindings_append, hbinds]
    exact hw.step hs

/-- **A worker is bound once and for good.**  After every run of an engine no episode has
been bound twice, every binding made in the run holds, and a loss reported with a valid
boot is accepted only of the worker that the authoritative episode is bound to; any
other such report is turned away and changes nothing. -/
theorem bindings_write_once {store : Option σ} {calls : List EngineCall} {id : WorkloadId}
    {w : Workload} (h : ((ofStore store).run calls).get id = some w) :
    ((bindings id ((ofStore store).events calls)).map (·.1)).Nodup ∧
    (∀ pre post, calls = pre ++ post → ∀ i worker boot,
      (i, worker, boot) ∈ bindings id ((ofStore store).events pre) →
      ∃ ep, w.episodes[i]? = some ep ∧ ep.worker = worker ∧ ep.boot = boot) ∧
    ∀ (worker : WorkerId) (boot : WorkerBootId) (g : WorkloadGeneration), boot.valid = true →
      ((((ofStore store).run calls).step (.on id (.onWorkerLost worker boot g))).1.outcome =
          .allow →
        ∃ i, w.AuthoritativeAt i ∧
          (i, worker, boot) ∈ bindings id ((ofStore store).events calls)) ∧
      ((¬∃ i, w.AuthoritativeAt i ∧
          (i, worker, boot) ∈ bindings id ((ofStore store).events calls)) →
        (((ofStore store).run calls).step (.on id (.onWorkerLost worker boot g))).1.outcome ≠
            .allow ∧
          Same (((ofStore store).run calls).step (.on id (.onWorkerLost worker boot g))).2
            ((ofStore store).run calls)) := by
  have hbound := bound_of_run h
  refine ⟨hbound.once, ?_, ?_⟩
  · rintro pre post rfl i worker boot hmem
    have hmem' : (i, worker, boot) ∈ bindings id ((ofStore store).events (pre ++ post)) := by
      rw [events_append, bindings, List.filterMap_append]
      exact List.mem_append_left _ hmem
    obtain ⟨ep, hi, hw, hb, -⟩ := hbound.held i worker boot hmem'
    exact ⟨ep, hi, hw, hb⟩
  · intro worker boot g hboot
    set e := (ofStore store).run calls
    obtain ⟨hout, -⟩ := e.step_on_some h (.onWorkerLost worker boot g)
    have hs := w.apply_step none (.onWorkerLost worker boot g)
    have hallow (ho : (e.step (.on id (.onWorkerLost worker boot g))).1.outcome = .allow) :
        ∃ i, w.AuthoritativeAt i ∧
          (i, worker, boot) ∈ bindings id ((ofStore store).events calls) := by
      rw [show (w.apply (.onWorkerLost worker boot g) none).outcome = .allow from
        hout.symm.trans ho] at hs
      exact hbound.lost (authority_of_run h) hboot hs
    refine ⟨hallow, fun hn => ?_⟩
    have hne := fun ho => hn (hallow ho)
    refine ⟨hne, (withWorkload_refused h ?_ ?_).2⟩
    · exact fun ho => hne (hout.trans ho)
    · exact hs.lost_or.resolve_left fun ho => hne (hout.trans ho)

/-- A launched workload whose episode is dispatched. -/
def launchAndDispatch : List EngineCall :=
  launch (.fromU64 1) {} ++
    [.on (.fromU64 1) (.admitDispatch (.fromU64 1000) (.fromU64 1) (.fromU64 1))]

/-- The loss of the worker it was dispatched to is accepted. -/
theorem bindings_write_once_dispatched :
    ∃ i, (((ofStore (none : Option (MemoryStateStore .leftToRight))).run
        launchAndDispatch).snapshot (.fromU64 1)).AuthoritativeAt i ∧
      (i, .fromU64 1, .fromU64 1) ∈ bindings (.fromU64 1)
        ((ofStore (none : Option (MemoryStateStore .leftToRight))).events launchAndDispatch) :=
  ((bindings_write_once rfl).2.2 (.fromU64 1) (.fromU64 1) (.fromU64 2) (by decide)).1 (by decide)

end WorkloadEngine

end WorkloadFabric
