/-
When the reports of an episode count.

`reportProgress` asks whether the named episode is authoritative, not whether it runs,
and neither a loss nor a suspension nor an end takes the authority away.  The window of
a workload is open from the dispatch or the migration of its current incarnation to the
first loss, suspension or end of it (`window`); the authoritative episode runs exactly
while it is open (`Windowed`).

* **`progress_fenced_iff`** — in a run, only the running authoritative episode reports
  progress, and an episode that has stopped never does so again, exactly when no report
  that passes the guards comes outside the window;
* **`lost_report_accepted`** — a report of the lost worker is counted.
-/
import WorkloadFabric.WorkerBindings
import WorkloadFabric.Moves

namespace WorkloadFabric

/-- The episode no longer runs, and is not to run again. -/
def Episode.Stopped (e : Episode) : Prop :=
  e.state = .suspended ∨ e.state = .lost ∨ e.state = .completed ∨ e.state = .failed

namespace Workload

/-- The search for this id stops at the authoritative episode. -/
def names (w : Workload) (id : ExecutionEpisodeId) : Bool :=
  (w.findEpisode id).any (·.authoritative)

/-- The window after an accepted operation, where it was `opened` before. -/
def window (w : Workload) (opened : Bool) : WorkloadOp → Bool
  | .startEpisode _ _ _ _ => false
  | .commitMigration _ _ _ => true
  | .admitDispatch episode _ _ => w.names episode || opened
  | .onWorkerLost _ _ _ => false
  | .completeSuspend _ => false
  | .markEpisodeCompleted id => !w.names id && opened
  | .markEpisodeFailed id => !w.names id && opened
  | _ => opened

/-- An operation that opens or closes the window is accepted once it has passed its
guards. -/
theorem Step.window_of_refused {w w' : Workload} {op : WorkloadOp} {o : Outcome}
    (h : Step w op o w') (hg : w.Granted op) (ho : o ≠ .allow) (opened : Bool) :
    w.window opened op = opened := by
  cases h with
  | rejected _ hn => exact absurd hg hn
  | start | commitMigration | dispatch | lost | markCompleted | markFailed | suspendedAgain
  | suspended => exact absurd rfl ho
  | _ => rfl

/-! ### Authority from place to place -/

/-- The authority of an episode is only ever taken away, by a new incarnation. -/
theorem editAt_authoritative {w : Workload} {op : WorkloadOp} {i : ℕ} {e : Episode}
    (h : (w.editAt op i e).authoritative = true) : e.authoritative = true ∧ ¬Incarnates op := by
  have hsplit {p : Prop} [Decidable p] {f : Episode → Episode}
      (hf : (f e).authoritative = e.authoritative)
      (h : (if p then f e else e).authoritative = true) : e.authoritative = true := by
    split at h
    · exact hf ▸ h
    · exact h
  cases op with
  | startEpisode | commitMigration => exact absurd h (by simp [editAt])
  | commitCompletion => exact ⟨hsplit (f := fun e => { e with completed := true }) rfl h, not_false⟩
  | admitDispatch | reportProgress | onWorkerLost | markEpisodeCompleted | markEpisodeFailed
  | completeSuspend => exact ⟨hsplit rfl h, not_false⟩
  | _ => exact ⟨h, not_false⟩

/-- A search stops at the authoritative place exactly when it names the authoritative
episode. -/
theorem Authority.names_iff {w : Workload} (h : w.Authority) {i : ℕ} {e : Episode}
    (hi : w.episodes[i]? = some e) (ha : e.authoritative = true) (id : ExecutionEpisodeId) :
    w.names id = true ↔ w.place id = i := by
  rw [names, findEpisode_eq_getElem?]
  constructor
  · intro hn
    obtain ⟨e', hp, ha'⟩ := (Option.any_eq_true ..).mp hn
    exact (authoritativeAt_of h.soleLast hi ha).2 _ e' hp ha'
  · rintro rfl
    rw [hi]
    exact ha

/-- The current episode stands at the authoritative place. -/
theorem Authority.currentPlace_eq {w : Workload} (h : w.Authority) {i : ℕ} {e : Episode}
    (hi : w.episodes[i]? = some e) (ha : e.authoritative = true) : w.currentPlace = i := by
  have hany : w.episodes.any (·.authoritative) = true :=
    List.any_eq_true.mpr ⟨e, List.mem_of_getElem? hi, ha⟩
  obtain ⟨ep, hc⟩ : ∃ ep, w.currentEpisode = some ep := by
    obtain ⟨ep, hf, -⟩ := h.soleLast.find?_isSome (List.ne_nil_of_mem (List.mem_of_getElem? hi))
    exact ⟨ep, by rw [Workload.currentEpisode, hf, Option.some_or]⟩
  have hp := w.currentEpisode_eq_getElem?.symm.trans hc
  exact (authoritativeAt_of h.soleLast hi ha).2 _ ep hp (authoritative_of_current h.soleLast hc)

/-! ### Stopped episodes -/

/-- What has stopped stays so: only a dispatch sets an episode running. -/
theorem editAt_stopped {w : Workload} {op : WorkloadOp} (hg : w.Granted op) {i : ℕ} {e : Episode}
    (hi : w.episodes[i]? = some e) (hs : e.Stopped) : (w.editAt op i e).Stopped := by
  have hsplit {p : Prop} [Decidable p] {f : Episode → Episode} (hf : (f e).Stopped) :
      (if p then f e else e).Stopped := by
    split
    · exact hf
    · exact hs
  cases op with
  | admitDispatch episode worker boot =>
    rw [editAt]
    split
    case isTrue hp =>
      obtain ⟨ep, hf, hd⟩ := hg
      obtain rfl := Option.some.inj ((findEpisode_of_place hp hi).symm.trans hf)
      rcases hd with hd | hd <;> exact absurd hs (by simp [Episode.Stopped, hd])
    case isFalse => exact hs
  | startEpisode | commitMigration => exact hs
  | reportProgress => exact hsplit (f := creditEpisode _ _) hs
  | commitCompletion => exact hsplit (f := fun e => { e with completed := true }) hs
  | onWorkerLost => exact hsplit (f := loseWorker) (.inr (.inl rfl))
  | markEpisodeCompleted => exact hsplit (f := completeEpisode) (.inr (.inr (.inl rfl)))
  | markEpisodeFailed => exact hsplit (f := failEpisode) (.inr (.inr (.inr rfl)))
  | completeSuspend => exact hsplit (f := suspendEpisode) (.inl rfl)
  | _ => exact hs

theorem Step.stopped {w w' : Workload} {op : WorkloadOp} {o : Outcome} (h : Step w op o w')
    {i : ℕ} (hw : ∃ e, w.episodes[i]? = some e ∧ e.Stopped) :
    ∃ e, w'.episodes[i]? = some e ∧ e.Stopped := by
  obtain ⟨e, hi, hs⟩ := hw
  rcases h.episode_at hi with ⟨hg, he⟩ | ⟨-, rfl, -⟩
  · exact ⟨_, he, editAt_stopped hg hi hs⟩
  · exact ⟨e, hi, hs⟩

/-! ### The window -/

/-- The authoritative episode runs exactly while the window is open; a suspended workload
has stopped it. -/
structure Windowed (opened : Bool) (w : Workload) : Prop where
  runs : ∀ (i : ℕ) (e : Episode), w.episodes[i]? = some e → e.authoritative = true →
    (e.state = .running ↔ opened = true)
  suspended : w.state = .suspended → ∀ (i : ℕ) (e : Episode), w.episodes[i]? = some e →
    e.authoritative = true → e.Stopped

theorem Windowed.create (id : WorkloadId) (name intent : Text) (policy : Policy) :
    Windowed false { create id name intent with policy := policy } where
  runs i e hi := absurd hi (by simp [Workload.create])
  suspended _ i e hi := absurd hi (by simp [Workload.create])

/-- What an edit makes of the authoritative episode. -/
theorem Windowed.edit {opened : Bool} {w : Workload} (h : Windowed opened w) (hauth : w.Authority)
    {op : WorkloadOp} (hg : w.Granted op) {i : ℕ} {e : Episode} (hi : w.episodes[i]? = some e)
    (ha : (w.editAt op i e).authoritative = true) :
    (w.editAt op i e).state = .running ↔ w.window opened op = true := by
  obtain ⟨hae, hinc⟩ := editAt_authoritative ha
  have hruns := h.runs i e hi hae
  cases op with
  | startEpisode | commitMigration => exact absurd trivial hinc
  | admitDispatch episode worker boot =>
    rw [window, editAt]
    by_cases hp : w.place episode = i
    · rw [if_pos hp, (hauth.names_iff hi hae episode).mpr hp]
      exact iff_of_true rfl rfl
    · have hn := mt (hauth.names_iff hi hae episode).mp hp
      rw [if_neg hp, Bool.eq_false_iff.mpr hn]
      exact hruns
  | onWorkerLost =>
    rw [window, editAt, if_pos (hauth.currentPlace_eq hi hae)]
    exact iff_of_false (by simp [loseWorker]) (by simp)
  | completeSuspend =>
    rw [window, editAt]
    split
    case isTrue => exact iff_of_false (by simp [suspendEpisode]) (by simp)
    case isFalse hp =>
      -- suspended already
      have hst : w.state = .suspended := by
        by_contra hne
        exact hp ⟨hauth.currentPlace_eq hi hae, hne⟩
      refine iff_of_false (fun hrun => ?_) (by simp)
      exact absurd (h.suspended hst i e hi hae) (by simp [Episode.Stopped, hrun])
  | markEpisodeCompleted id =>
    rw [window, editAt]
    by_cases hp : w.place id = i
    · rw [if_pos hp, (hauth.names_iff hi hae id).mpr hp]
      exact iff_of_false (by simp [completeEpisode]) (by simp)
    · have hn := mt (hauth.names_iff hi hae id).mp hp
      rw [if_neg hp, Bool.eq_false_iff.mpr hn]
      exact hruns
  | markEpisodeFailed id =>
    rw [window, editAt]
    by_cases hp : w.place id = i
    · rw [if_pos hp, (hauth.names_iff hi hae id).mpr hp]
      exact iff_of_false (by simp [failEpisode]) (by simp)
    · have hn := mt (hauth.names_iff hi hae id).mp hp
      rw [if_neg hp, Bool.eq_false_iff.mpr hn]
      exact hruns
  | reportProgress | commitCompletion =>
    rw [editAt]
    split <;> exact hruns
  | _ => exact hruns

/-- Only the completion of a suspension leads to SUSPENDED. -/
theorem op_of_moves_to_suspended {w : Workload} {op : WorkloadOp} (hop : Governs op)
    (hm : w.Moves op .suspended) :
    ∃ g, op = .completeSuspend g ∧ (w.state = .suspendRequested ∨ w.state = .suspending) := by
  cases op with
  | completeSuspend g => exact ⟨g, rfl, hm.2⟩
  | transition s g reason =>
    have hv : s = .validating := hop
    exact absurd (hm.1.trans hv) (by decide)
  | settle g => exact absurd (settleTarget_awaits hm.1) (by decide)
  | startEpisode | admitDispatch | commitCompletion | finalize | requestCancellationWorkloadScope
  | completeCancellation | onWorkerLost | planRestart | requestSuspend | requestResume
  | requestMigration | commitMigration => exact absurd hm.1 (by decide)
  | _ => exact hm.elim

/-- **The window follows every step of an engine.** -/
theorem Windowed.step {opened : Bool} {w w' : Workload} {op : WorkloadOp} {o : Outcome}
    (h : Windowed opened w) (hauth : w.Authority) (hop : Governs op) (hs : Step w op o w') :
    Windowed (if o = .allow then w.window opened op else opened) w' := by
  rcases hs.granted_or with hg | ⟨-, rfl, ho⟩
  case inr => rwa [if_neg ho]
  have hwindow : (if o = .allow then w.window opened op else opened) = w.window opened op := by
    by_cases ho : o = .allow
    · rw [if_pos ho]
    · rw [if_neg ho, hs.window_of_refused hg ho]
  rw [hwindow]
  -- every episode is an old one rewritten, or the one pushed
  have hold {i : ℕ} {e' : Episode} (hi : w'.episodes[i]? = some e') :
      (∃ e, w.episodes[i]? = some e ∧ e' = w.editAt op i e) ∨ w.newEpisode op = some e' := by
    rcases Nat.lt_or_ge i w.episodes.length with hlt | hge
    · have he := List.getElem?_eq_getElem hlt
      rcases hs.episode_at he with ⟨-, he'⟩ | ⟨hn, -⟩
      · exact .inl ⟨_, he, Option.some.inj (hi.symm.trans he')⟩
      · exact absurd hg hn
    · exact .inr ((hs.episode_new hg hge).mp hi).2
  constructor
  · intro i e' hi ha
    rcases hold hi with ⟨e, he, rfl⟩ | hnew
    · exact h.edit hauth hg he ha
    · cases op with
      | startEpisode =>
        obtain rfl := Option.some.inj hnew
        exact iff_of_false (by simp [admittedEpisode]) (by simp [window])
      | commitMigration =>
        obtain rfl := Option.some.inj hnew
        exact iff_of_true rfl rfl
      | _ => exact absurd hnew (by simp [newEpisode])
  · intro hst i e' hi ha
    rcases hold hi with ⟨e, he, rfl⟩ | hnew
    · obtain ⟨hae, -⟩ := editAt_authoritative ha
      rcases hs.state_cases with heq | ⟨-, hm⟩
      · exact editAt_stopped hg he (h.suspended (heq.symm.trans hst) i e he hae)
      · rw [hst] at hm
        obtain ⟨g, rfl, hfrom⟩ := op_of_moves_to_suspended hop hm
        have hne : w.state ≠ .suspended := by
          rintro heq
          rw [heq] at hfrom
          exact absurd hfrom (by decide)
        rw [editAt, if_pos ⟨hauth.currentPlace_eq he hae, hne⟩]
        exact .inl rfl
    · -- a new incarnation is no longer suspended
      cases hs with
      | start => exact absurd hst (by simp)
      | commitMigration => exact absurd hst (by simp [migrated])
      | rejected _ hn => exact absurd hg hn
      | _ => exact absurd hnew (by simp [newEpisode])

/-- A report is accepted exactly when it passes its guards. -/
theorem Step.progress_iff {w w' : Workload} {episode : ExecutionEpisodeId}
    {gen : ExecutionEpisodeGeneration} {delta : UInt64} {durable : Bool} {o : Outcome}
    (h : Step w (.reportProgress episode gen delta durable) o w') :
    o = .allow ↔ w.Granted (.reportProgress episode gen delta durable) := by
  constructor
  · rintro rfl
    exact h.granted
  · intro hg
    cases h with
    | rejected _ hn => exact absurd hg hn
    | progress => rfl

end Workload

namespace WorkloadEngine

variable {σ : Type} [StateStore σ]

/-! ### Runs -/

/-- Whether the window of `id` is open after the events. -/
def window (id : WorkloadId) (evs : List (Event σ)) : Bool :=
  evs.foldl (fun opened ev => (ev.performed id).elim opened fun p => p.1.window opened p.2) false

omit [StateStore σ] in
theorem window_append (id : WorkloadId) (evs : List (Event σ)) (ev : Event σ) :
    window id (evs ++ [ev]) =
      (ev.performed id).elim (window id evs) fun p => p.1.window (window id evs) p.2 := by
  rw [window, List.foldl_append]
  rfl

omit [StateStore σ] in
theorem window_of_silent {id : WorkloadId} {evs : List (Event σ)}
    (h : ∀ ev ∈ evs, ev.accepted id = none) : window id evs = false := by
  induction evs using List.reverseRecOn with
  | nil => rfl
  | append_singleton evs ev ih =>
    rw [window_append, Event.performed_of_silent (h ev (by simp))]
    exact ih fun ev' h' => h ev' (List.mem_append_left _ h')

/-- After every run the authoritative episode runs exactly while the window is open. -/
theorem windowed_of_run {store : Option σ} {calls : List EngineCall} {id : WorkloadId}
    {w : Workload} (h : ((ofStore store).run calls).get id = some w) :
    w.Windowed (window id ((ofStore store).events calls)) := by
  refine (history_induction (P := fun evs w => w.Authority ∧ w.Windowed (window id evs))
    ?_ ?_ ?_ calls h).2
  · intro evs name intent policy hsilent
    rw [window_of_silent hsilent]
    have hfence : Workload.Fencing (.setPolicy policy) := trivial
    exact ⟨(Workload.Authority.create id name intent).step hfence .setPolicy,
      .create id name intent policy⟩
  · intro evs ev w hev hw
    rw [window_append, Event.performed_of_silent hev]
    exact hw
  · intro evs e r w w' hget ⟨hauth, hw⟩ hs
    refine ⟨hauth.step (r.fencing _ w) hs, ?_⟩
    have hstep := hw.step hauth (r.governs _ w) hs
    rw [window_append, performed_observe hget]
    split at hstep
    case isTrue ho => rwa [if_pos ho]
    case isFalse ho => rwa [if_neg ho]

/-- The accepted report comes from the running authoritative episode, which has never
stopped before. -/
structure ReportedInTime (store : Option σ) (pre : List EngineCall) (id : WorkloadId)
    (w : Workload) (episode : ExecutionEpisodeId) : Prop where
  running : ∃ ep, w.findEpisode episode = some ep ∧ ep.authoritative = true ∧ ep.state = .running
  never_stopped : ∀ pre' post' w' e, pre = pre' ++ post' →
    ((ofStore store).run pre').get id = some w' → w'.episodes[w.place episode]? = some e →
    ¬e.Stopped

/-- An episode that runs has never stopped. -/
theorem never_stopped_of_running {store : Option σ} {pre post : List EngineCall} {id : WorkloadId}
    {w w' : Workload} (h' : ((ofStore store).run pre).get id = some w')
    (h : ((ofStore store).run (pre ++ post)).get id = some w) {i : ℕ} {e ep : Episode}
    (hi : w'.episodes[i]? = some e) (hep : w.episodes[i]? = some ep)
    (hrun : ep.state = .running) : ¬e.Stopped := by
  intro hs
  obtain ⟨w₁, hw₁, e₁, he₁, hs₁⟩ := preserved_run
    (q := fun w => ∃ e, w.episodes[i]? = some e ∧ e.Stopped)
    (fun hw hstep => hstep.stopped hw) ⟨w', h', e, hi, hs⟩ post
  rw [← run_append] at hw₁
  obtain rfl := Option.some.inj (hw₁.symm.trans h)
  obtain rfl := Option.some.inj (he₁.symm.trans hep)
  exact absurd hs₁ (by simp [Episode.Stopped, hrun])

/-- **The fence of the reports, and where it is open.**  In a run every accepted report
comes from the running authoritative episode, and none from an episode that has ever
been lost, suspended or ended, exactly when no report that passes the guards comes
outside the window of its workload. -/
theorem progress_fenced_iff (store : Option σ) (calls : List EngineCall) (id : WorkloadId) :
    (∀ pre episode gen delta durable post w,
      calls = pre ++ .on id (.progress episode gen delta durable) :: post →
      ((ofStore store).run pre).get id = some w →
      (((ofStore store).run pre).step (.on id (.progress episode gen delta durable))).1.outcome =
        .allow → ReportedInTime store pre id w episode) ↔
    ∀ pre episode gen delta durable post w,
      calls = pre ++ .on id (.progress episode gen delta durable) :: post →
      ((ofStore store).run pre).get id = some w →
      w.Granted (.reportProgress episode gen delta durable) →
      window id ((ofStore store).events pre) = true := by
  have hallow {pre : List EngineCall} {w : Workload}
      (hw : ((ofStore store).run pre).get id = some w) (episode : ExecutionEpisodeId)
      (gen : ExecutionEpisodeGeneration) (delta : UInt64)
      (durable : Bool) :
      (((ofStore store).run pre).step (.on id (.progress episode gen delta durable))).1.outcome =
        .allow ↔ w.Granted (.reportProgress episode gen delta durable) := by
    obtain ⟨hout, -⟩ := step_on_some _ hw (.progress episode gen delta durable)
    rw [hout]
    exact (w.apply_step none (.reportProgress episode gen delta durable)).progress_iff
  constructor
  · intro h pre episode gen delta durable post w heq hw hg
    obtain ⟨⟨ep, hf, ha, hrun⟩, -⟩ := h pre episode gen delta durable post w heq hw
      ((hallow hw episode gen delta durable).mpr hg)
    rw [Workload.findEpisode_eq_getElem?] at hf
    exact ((windowed_of_run hw).runs _ ep hf ha).mp hrun
  · intro h pre episode gen delta durable post w heq hw ho
    have hg := (hallow hw episode gen delta durable).mp ho
    have hopen := h pre episode gen delta durable post w heq hw hg
    obtain ⟨⟨ep, hf, -, ha⟩, -⟩ := hg
    have hi := (w.findEpisode_eq_getElem? episode).symm.trans hf
    have hrun := ((windowed_of_run hw).runs _ ep hi ha).mpr hopen
    refine ⟨⟨ep, hf, ha, hrun⟩, ?_⟩
    rintro pre' post' w' e rfl hw' he
    exact never_stopped_of_running hw' hw he hi hrun

/-- A launched workload whose episode is dispatched to a worker that is then lost. -/
def launchAndLoseWorker : List EngineCall :=
  launch (.fromU64 1) {} ++
    [.on (.fromU64 1) (.admitDispatch (.fromU64 1000) (.fromU64 1) (.fromU64 1)),
      .on (.fromU64 1) (.onWorkerLost (.fromU64 1) (.fromU64 1) (.fromU64 2))]

/-- A report of the lost worker is counted. -/
theorem lost_report_accepted :
    ¬∀ (calls : List EngineCall) (id : WorkloadId) (w : Workload) (episode : ExecutionEpisodeId)
      (gen : ExecutionEpisodeGeneration) (delta : UInt64) (durable : Bool),
      ((ofStore (none : Option (MemoryStateStore .leftToRight))).run calls).get id = some w →
      (((ofStore (none : Option (MemoryStateStore .leftToRight))).run calls).step
        (.on id (.progress episode gen delta durable))).1.outcome = .allow →
      ReportedInTime (none : Option (MemoryStateStore .leftToRight)) calls id w episode := by
  intro h
  obtain ⟨⟨ep, hf, -, hrun⟩, -⟩ := h launchAndLoseWorker (.fromU64 1) _ (.fromU64 1000)
    (.fromU64 1) 1 false rfl (by decide)
  have hlost : ((((ofStore (none : Option (MemoryStateStore .leftToRight))).run
      launchAndLoseWorker).snapshot (.fromU64 1)).findEpisode (.fromU64 1000)).map
      Episode.state = some .lost := by decide
  have hfound : (((ofStore (none : Option (MemoryStateStore .leftToRight))).run
      launchAndLoseWorker).snapshot (.fromU64 1)).findEpisode (.fromU64 1000) = some ep := hf
  rw [hfound, Option.map_some, hrun] at hlost
  exact absurd hlost (by decide)

end WorkloadEngine

end WorkloadFabric
