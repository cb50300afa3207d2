/-
When a workload may complete.

The criterion of the policy is about reports: which episodes `markEpisodeCompleted` has been
called for, and how much progress has been made.  The code keeps the reports as flags of the
episodes.  Two things come between: REQUIRED_UNITS is decided by the known total, not by
`requiredUnits`, and a commit that passes it sets the flag of the current episode even where
the transition is refused.

* **`completion_criteria_sound`** — in a run whose commits stay clear of the two, a commit
  is accepted only if the criterion holds, and a workload underway is not turned away when it
  does.
-/
import WorkloadFabric.WorkerBindings
import WorkloadFabric.Moves

namespace WorkloadFabric

open FirstMatch

namespace Workload

/-! ### Mutations -/

/-- What can happen to a workload: a call, or a write through the reference that `progress()`
returns. -/
inductive Mutation where
  | call (c : Call)
  | progress (p : Progress)

def mutate (w : Workload) : Mutation → Workload
  | .call c => (w.apply c.1 c.2).workload
  | .progress p => { w with progress := p }

def play (w : Workload) (ms : List Mutation) : Workload := ms.foldl mutate w

/-- The place of the episode that a mutation reports completed. -/
def reportedPlace (w : Workload) : Mutation → Option ℕ
  | .call (.markEpisodeCompleted id, _) =>
    if (w.findEpisode id).isSome then some (w.place id) else none
  | _ => none

/-- The places that are reported completed in the course of a run. -/
def reports (w : Workload) : List Mutation → List ℕ
  | [] => []
  | m :: ms => (w.reportedPlace m).toList ++ (w.mutate m).reports ms

theorem reports_append_singleton (w : Workload) (ms : List Mutation) (m : Mutation) :
    w.reports (ms ++ [m]) = w.reports ms ++ ((w.play ms).reportedPlace m).toList := by
  induction ms generalizing w with
  | nil => simp [reports, play]
  | cons m' ms ih =>
    rw [List.cons_append, reports, reports, ih, List.append_assoc]
    rfl

theorem play_append_singleton (w : Workload) (ms : List Mutation) (m : Mutation) :
    w.play (ms ++ [m]) = (w.play ms).mutate m := List.foldl_concat ..

/-! ### Criteria -/

/-- At least `requiredUnits` units are completed. -/
def UnitsCompleted (w : Workload) : Prop :=
  w.policy.completion.requiredUnits.toNat ≤ w.progress.completed.toNat

/-- The authoritative episode was reported completed. -/
def ResultReported (reported : List ℕ) (w : Workload) : Prop :=
  ∃ i, w.AuthoritativeAt i ∧ i ∈ reported

/-- The criterion of the policy, given the places that were reported completed. -/
def CriterionMet (reported : List ℕ) (w : Workload) : Prop :=
  match w.policy.completion.kind with
  | .singleResult => ResultReported reported w
  | .allPhases => ResultReported reported w ∧ w.progress.totalKind = .known ∧
      w.progress.total ≤ w.progress.completed
  | .requiredUnits => w.UnitsCompleted
  | .explicitFinalize => False

/-- Running or degraded, and nobody asked to cancel. -/
def Underway (w : Workload) : Prop :=
  (w.state = .running ∨ w.state = .degraded) ∧ w.cancellationRequested = false

/-- A commit is accepted only if the criterion holds; underway, whenever it does. -/
structure CommitsSoundly (reported : List ℕ) (w : Workload) (g : WorkloadGeneration)
    (ex : Option Explanation) : Prop where
  sound : (w.commitCompletion g ex).outcome = .allow → CriterionMet reported w
  complete : w.Underway → g = w.generation → CriterionMet reported w →
    (w.commitCompletion g ex).outcome = .allow

/-- Under REQUIRED_UNITS, a commit with the current generation is made only where the known
total and `requiredUnits` are reached together, as far as it matters, and only where there is an
edge to COMPLETING or the current episode was reported completed already. -/
structure CommitsClear (w : Workload) : Prop where
  units : w.completionGranted → w.Admits .completing → w.UnitsCompleted
  total : w.Underway → w.UnitsCompleted → w.progress.complete = true
  flag : w.completionGranted → ¬w.Admits .completing →
    ∀ cur, w.currentEpisode = some cur → cur.completed = true

/-- The mutation is no commit that goes wrong. -/
def Clear (w : Workload) : Mutation → Prop
  | .call (.commitCompletion g, _) => w.policy.completion.kind = .requiredUnits →
      g = w.generation → w.CommitsClear
  | _ => True

/-! ### What a commit comes to -/

theorem Step.commit_allow_iff {w w' : Workload} {g : WorkloadGeneration} {o : Outcome}
    (h : Step w (.commitCompletion g) o w') :
    o = .allow ↔ g = w.generation ∧ w.completionGranted ∧ w.Admits .completing := by
  cases h with
  | rejected ho hn => exact iff_of_false ho fun h => hn ⟨h.1, h.2.1⟩
  | complete hg hc ha => exact iff_of_true rfl ⟨hg, hc, ha⟩
  | completeRefused _ _ hn ho => exact iff_of_false ho fun h => hn h.2.2

theorem commit_allow_iff (w : Workload) (g : WorkloadGeneration) (ex : Option Explanation) :
    (w.commitCompletion g ex).outcome = .allow ↔
      g = w.generation ∧ w.completionGranted ∧ w.Admits .completing :=
  (w.apply_step ex (.commitCompletion g)).commit_allow_iff

/-- Underway only the criterion decides. -/
theorem Underway.allow_iff {w : Workload} (h : w.Underway) {g : WorkloadGeneration}
    (hg : g = w.generation) (ex : Option Explanation) :
    (w.commitCompletion g ex).outcome = .allow ↔ w.completionCriterion = true := by
  obtain ⟨hs, hc⟩ := h
  have ht : isTerminal w.state = false := by
    rcases hs with hs | hs <;> rw [hs] <;> rfl
  have ha : w.Admits .completing := by
    rcases hs with hs | hs
    · exact admits_of_edge hs (by decide) rfl (.inl nofun)
    · exact admits_of_edge hs (by decide) rfl (.inl nofun)
  rw [commit_allow_iff, completionGranted]
  simp [hg, ht, hc, ha]

/-! ### Flags and reports -/

/-- **Only a report and a commit complete an episode.** -/
theorem editAt_completed (w : Workload) (op : WorkloadOp) (i : ℕ) (e : Episode) :
    (w.editAt op i e).completed = true ↔ e.completed = true ∨
      (∃ id, op = .markEpisodeCompleted id ∧ w.place id = i) ∨
      ∃ g, op = .commitCompletion g ∧ w.currentPlace = i := by
  have hsplit {p : Prop} [Decidable p] {f : Episode → Episode}
      (hf : (f e).completed = e.completed) : (if p then f e else e).completed = e.completed := by
    split
    · exact hf
    · rfl
  cases op with
  | markEpisodeCompleted id =>
    rw [editAt]
    split
    · next h => simp [completeEpisode, h]
    · next h => simp [h]
  | commitCompletion g =>
    rw [editAt]
    split
    · next h => simp [h]
    · next h => simp [h]
  | admitDispatch => rw [editAt, hsplit rfl]; simp
  | reportProgress => rw [editAt, hsplit rfl]; simp
  | onWorkerLost => rw [editAt, hsplit rfl]; simp
  | markEpisodeFailed => rw [editAt, hsplit rfl]; simp
  | completeSuspend => rw [editAt, hsplit rfl]; simp
  | _ => simp [editAt]

/-- The flags are the reports, as long as the workload has not come to its end. -/
structure Marked (reported : List ℕ) (w : Workload) : Prop where
  soleLast : SoleLast (·.authoritative) w.episodes
  placed : ∀ i ∈ reported, i < w.episodes.length
  flags : isTerminal w.state = false → ∀ (i : ℕ) (e : Episode), w.episodes[i]? = some e →
    (e.completed = true ↔ i ∈ reported)

theorem Marked.create (id : WorkloadId) (name intent : Text) :
    Marked [] (create id name intent) where
  soleLast := .nil _
  placed _ h := absurd h List.not_mem_nil
  flags _ i e h := absurd h (by simp [Workload.create])

/-- A commit that is granted, and clear, sets no flag that was not set before, unless it ends the
workload. -/
theorem flag_of_commit {w w' : Workload} {g : WorkloadGeneration} {o : Outcome}
    (hs : Step w (.commitCompletion g) o w') (hg : w.Granted (.commitCompletion g))
    (hclear : w.policy.completion.kind = .requiredUnits → g = w.generation → w.CommitsClear)
    (ht : isTerminal w'.state = false) {cur : Episode} (hcur : w.currentEpisode = some cur) :
    cur.completed = true := by
  obtain ⟨hgen, hgranted⟩ := hg
  have hcriterion := hgranted.2.2
  rw [completionCriterion, hcur] at hcriterion
  rcases hk : w.policy.completion.kind with _ | _ | _ | _
  all_goals simp only [hk] at hcriterion
  · exact hcriterion
  · exact (Bool.and_eq_true_iff.mp hcriterion).1
  · cases hs with
    | rejected _ hn => exact absurd ⟨hgen, hgranted⟩ hn
    | complete =>
      rw [moved_state] at ht
      exact absurd ht (by decide)
    | completeRefused _ _ hn => exact (hclear hk hgen).flag hgranted hn cur hcur
  · exact absurd hcriterion (by decide)

theorem mem_reportedPlace {w : Workload} {op : WorkloadOp} {ex : Option Explanation} {i : ℕ} :
    i ∈ (w.reportedPlace (.call (op, ex))).toList ↔
      w.Granted op ∧ ∃ id, op = .markEpisodeCompleted id ∧ w.place id = i := by
  cases op with
  | markEpisodeCompleted id =>
    rw [reportedPlace, Granted]
    rcases w.findEpisode id with _ | ep
    · simp
    · simp [eq_comm]
  | _ => simp [reportedPlace]

theorem place_lt_of_granted {w : Workload} {id : ExecutionEpisodeId}
    (hg : w.Granted (.markEpisodeCompleted id)) : w.place id < w.episodes.length := by
  obtain ⟨ep, hf⟩ := hg
  rw [findEpisode_eq_getElem?] at hf
  exact (List.getElem?_eq_some_iff.mp hf).1

theorem completed_of_new {w : Workload} {op : WorkloadOp} {e : Episode}
    (h : w.newEpisode op = some e) : e.completed = false := by
  cases op with
  | startEpisode =>
    obtain rfl := Option.some.inj h
    rfl
  | commitMigration =>
    obtain rfl := Option.some.inj h
    rfl
  | _ => exact absurd h (by simp [newEpisode])

/-- **Clear steps keep the flags true to the reports.** -/
theorem Marked.step {reported : List ℕ} {w w' : Workload} {op : WorkloadOp}
    {ex : Option Explanation} {o : Outcome} (h : Marked reported w) (hs : Step w op o w')
    (hclear : w.Clear (.call (op, ex))) :
    Marked (reported ++ (w.reportedPlace (.call (op, ex))).toList) w' where
  soleLast := hs.soleLast h.soleLast
  placed i hi := by
    refine Nat.lt_of_lt_of_le ?_ hs.length_le
    rcases List.mem_append.mp hi with hi | hi
    · exact h.placed i hi
    · obtain ⟨hg, id, rfl, rfl⟩ := mem_reportedPlace.mp hi
      exact place_lt_of_granted hg
  flags ht i e hi := by
    have ht' : isTerminal w.state = false := by
      by_contra hn
      rw [hs.terminal (Bool.not_eq_false _ ▸ hn)] at ht
      exact hn ht
    rw [List.mem_append, mem_reportedPlace]
    rcases hs.granted_or with hg | ⟨hn, rfl, -⟩
    · rcases Nat.lt_or_ge i w.episodes.length with hlt | hge
      · have hget := List.getElem?_eq_getElem hlt
        rcases hs.episode_at hget with ⟨-, hi'⟩ | ⟨hn, -⟩
        · obtain rfl := Option.some.inj (hi'.symm.trans hi)
          rw [editAt_completed, h.flags ht' i _ hget]
          refine or_congr_right' fun hmem => ?_
          refine (or_iff_left ?_).trans (and_iff_right hg).symm
          -- a commit finds its flag set already
          rintro ⟨g, rfl, rfl⟩
          have hcur := w.currentEpisode_eq_getElem?.trans hget
          exact hmem ((h.flags ht' _ _ hget).mp (flag_of_commit hs hg hclear ht hcur))
        · exact absurd hg hn
      · obtain ⟨rfl, hnew⟩ := (hs.episode_new hg hge).mp hi
        rw [completed_of_new hnew]
        refine iff_of_false Bool.false_ne_true ?_
        rintro (hmem | ⟨-, id, rfl, hp⟩)
        · exact Nat.lt_irrefl _ (h.placed _ hmem)
        · exact absurd hp (place_lt_of_granted hg).ne
    · rw [h.flags ht i e hi]
      exact (or_iff_left fun hg => hn hg.1).symm

/-- A write to the progress touches neither the episodes nor the state. -/
theorem Marked.mutate {reported : List ℕ} {w : Workload} (h : Marked reported w) (m : Mutation)
    (hclear : w.Clear m) : Marked (reported ++ (w.reportedPlace m).toList) (w.mutate m) := by
  cases m with
  | call c => exact h.step (w.apply_step c.2 c.1) hclear
  | progress p =>
    rw [show (w.reportedPlace (.progress p)).toList = [] from rfl, List.append_nil]
    exact ⟨h.soleLast, h.placed, h.flags⟩

/-- The flags are true to the reports after every clear run. -/
theorem marked_of_run {w : Workload} (h : Marked [] w) (ms : List Mutation)
    (hclear : Machine.Along Workload.mutate Clear w ms) : Marked (w.reports ms) (w.play ms) := by
  induction ms using List.reverseRecOn with
  | nil => exact h
  | append_singleton ms m ih =>
    obtain ⟨hms, hm, -⟩ := Machine.along_append.mp hclear
    rw [reports_append_singleton, play_append_singleton]
    exact (ih hms).mutate m hm

/-! ### Criteria and commits -/

theorem Marked.result_iff {reported : List ℕ} {w : Workload} (h : Marked reported w)
    (ht : isTerminal w.state = false) :
    w.currentEpisode.any (·.completed) = true ↔ ResultReported reported w := by
  rw [Option.any_eq_true]
  constructor
  · rintro ⟨cur, hcur, hc⟩
    refine ⟨w.currentPlace, (authoritativeAt_iff h.soleLast).mpr ⟨rfl, cur, hcur⟩, ?_⟩
    exact (h.flags ht _ cur (w.currentEpisode_eq_getElem?.symm.trans hcur)).mp hc
  · rintro ⟨i, hi, hmem⟩
    obtain ⟨rfl, cur, hcur⟩ := (authoritativeAt_iff h.soleLast).mp hi
    exact ⟨cur, hcur, (h.flags ht _ cur (w.currentEpisode_eq_getElem?.symm.trans hcur)).mpr hmem⟩

theorem complete_iff (p : Progress) :
    p.complete = true ↔ p.totalKind = .known ∧ p.total ≤ p.completed := by
  simp [Progress.complete]

/-- **A clear commit is sound and complete.** -/
theorem Marked.commits {reported : List ℕ} {w : Workload} (h : Marked reported w)
    {g : WorkloadGeneration} {ex : Option Explanation}
    (hclear : w.Clear (.call (.commitCompletion g, ex))) : CommitsSoundly reported w g ex where
  sound ho := by
    obtain ⟨hg, hgranted, ha⟩ := (w.commit_allow_iff g ex).mp ho
    have hcriterion := hgranted.2.2
    rw [CriterionMet]
    rw [completionCriterion] at hcriterion
    rcases hk : w.policy.completion.kind with _ | _ | _ | _
    all_goals simp only [hk] at hcriterion ⊢
    · exact (h.result_iff hgranted.1).mp hcriterion
    · obtain ⟨hresult, htotal⟩ := Bool.and_eq_true_iff.mp hcriterion
      exact ⟨(h.result_iff hgranted.1).mp hresult, (complete_iff _).mp htotal⟩
    · exact (hclear hk hg).units hgranted ha
    · exact absurd hcriterion (by decide)
  complete hu hg hmet := by
    have ht : isTerminal w.state = false := by
      rcases hu.1 with hs | hs <;> rw [hs] <;> rfl
    rw [hu.allow_iff hg, completionCriterion]
    rw [CriterionMet] at hmet
    rcases hk : w.policy.completion.kind with _ | _ | _ | _
    all_goals simp only [hk] at hmet ⊢
    · exact (h.result_iff ht).mpr hmet
    · exact Bool.and_eq_true_iff.mpr ⟨(h.result_iff ht).mpr hmet.1, (complete_iff _).mpr hmet.2⟩
    · exact (hclear hk hg).total hu hmet

/-- **Completion criteria are sound** in every run whose commits stay clear of the gap between the
known total and `requiredUnits`: a commit is accepted only if the criterion of the policy holds,
and one that is made underway whenever it does. -/
theorem completion_criteria_sound {id : WorkloadId} {name intent : Text} {ms : List Mutation}
    (hclear : Machine.Along Workload.mutate Clear (create id name intent) ms) :
    ∀ pre g ex post, ms = pre ++ .call (.commitCompletion g, ex) :: post →
      CommitsSoundly ((create id name intent).reports pre) ((create id name intent).play pre) g
        ex := by
  rintro pre g ex post rfl
  obtain ⟨hpre, hcall, -⟩ := Machine.along_append.mp hclear
  exact (marked_of_run (.create id name intent) pre hpre).commits hcall

/-- A workload under `policy` that starts its first episode. -/
def starting (policy : Policy) : List Mutation :=
  [.call (.setPolicy policy, none), .call (.transition .validating (.fromU64 1) [], none),
    .call (.applyGrant {}, none), .call (.settle (.fromU64 1), none),
    .call (.startEpisode (.fromU64 7) (.fromU64 1) (.fromU64 1) true, none)]

def dispatch : Mutation := .call (.admitDispatch (.fromU64 7) (.fromU64 1) (.fromU64 1), none)

/-- Two units are required, two are known to be all, and two are done. -/
def twoOfTwo : List Mutation :=
  starting { completion := { kind := .requiredUnits, requiredUnits := 2 } } ++
    [dispatch, .progress { completed := 2, totalKind := .known, total := 2 },
      .call (.commitCompletion (.fromU64 2), none)]

/-- The commit is accepted, and rightly so. -/
theorem completion_criteria_sound_units :
    CommitsSoundly [] ((create (.fromU64 1) [] []).play (twoOfTwo.take 7)) (.fromU64 2) none := by
  have hadmits : ((create (.fromU64 1) [] []).play (twoOfTwo.take 7)).Admits .completing := by
    decide
  have hclear : ((create (.fromU64 1) [] []).play (twoOfTwo.take 7)).CommitsClear :=
    ⟨fun _ _ => (show 2 ≤ 2 from Nat.le_refl 2), fun _ _ => rfl, fun _ hn => absurd hadmits hn⟩
  have hrun : Machine.Along Workload.mutate Clear (create (.fromU64 1) [] []) twoOfTwo :=
    ⟨trivial, trivial, trivial, trivial, trivial, trivial, trivial, fun _ _ => hclear, trivial⟩
  exact completion_criteria_sound hrun (twoOfTwo.take 7) (.fromU64 2) none [] rfl

/-- Five units are required, none is done, and none is known to be all. -/
def noneOfFive : List Mutation :=
  starting { completion := { kind := .requiredUnits, requiredUnits := 5 } } ++
    [dispatch, .progress { totalKind := .known, total := 0 }]

/-- The commit that is refused in STARTING is the only thing that could be taken for a report. -/
def refusedThenSingle : List Mutation :=
  starting { completion := { kind := .requiredUnits } } ++
    [.progress { totalKind := .known, total := 0 }, .call (.commitCompletion (.fromU64 2), none),
      dispatch, .call (.setPolicy {}, none)]

/-- Without a unit done, and without a report, the commit is accepted. -/
theorem unearned_completion :
    ¬CommitsSoundly ((create (.fromU64 1) [] []).reports noneOfFive)
      ((create (.fromU64 1) [] []).play noneOfFive) (.fromU64 2) none ∧
    ¬CommitsSoundly ((create (.fromU64 1) [] []).reports refusedThenSingle)
      ((create (.fromU64 1) [] []).play refusedThenSingle) (.fromU64 2) none := by
  constructor
  · intro h
    exact absurd (h.sound rfl) (show ¬5 ≤ 0 by decide)
  · intro h
    obtain ⟨_, -, hmem⟩ := h.sound rfl
    exact absurd hmem List.not_mem_nil

end Workload

end WorkloadFabric
