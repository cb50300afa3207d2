/-
The life of an episode.

Between the calls of an engine an episode shows a state; what it shows from its
beginning on, without repetitions, is its life.

* **`episode_life_iff`** — the lives of the episodes of an engine are these: an episode
  begins ADMITTED, or RUNNING as the target of a migration; once ADMITTED it may be
  dispatched, as the first thing that happens to it; and from then on it is LOST and
  COMPLETED by turns, in any order and as often as one likes, and SUSPENDED at most once.

So neither LOST nor COMPLETED is an end, and no episode is ever PENDING, PREEMPTED,
MIGRATING, CANCELLED or FAILED.
-/
import WorkloadFabric.Courses
import WorkloadFabric.LiveEdges
import WorkloadFabric.ProgressWindow

namespace WorkloadFabric

/-- The lives of episodes. -/
inductive Life : List EpisodeState → Prop
  | admitted : Life [.admitted]
  | migrated : Life [.running]
  | dispatched : Life [.admitted, .running]
  /-- its worker is lost, or its result arrives -/
  | ended {states : List EpisodeState} {s : EpisodeState} (h : Life states)
      (hs : s = .lost ∨ s = .completed) (hlast : states.getLast? ≠ some s) : Life (states ++ [s])
  | suspended {states : List EpisodeState} (h : Life states) (hfirst : .suspended ∉ states) :
      Life (states ++ [.suspended])

namespace Life

/-- The states of a life. -/
theorem mem {states : List EpisodeState} (h : Life states) {s : EpisodeState} (hs : s ∈ states) :
    s ∈ [EpisodeState.admitted, .running, .suspended, .lost, .completed] := by
  induction h with
  | admitted | migrated | dispatched => revert hs; cases s <;> decide
  | ended _ hend _ ih =>
    rcases List.mem_append.mp hs with hs | hs
    · exact ih hs
    · rw [List.mem_singleton.mp hs]
      rcases hend with rfl | rfl <;> decide
  | suspended _ _ ih =>
    rcases List.mem_append.mp hs with hs | hs
    · exact ih hs
    · rw [List.mem_singleton.mp hs]
      decide

/-- Who is still ADMITTED has seen nothing else. -/
theorem eq_of_admitted {states : List EpisodeState} (h : Life states)
    (hlast : states.getLast? = some .admitted) : states = [.admitted] := by
  cases h with
  | admitted => rfl
  | migrated | dispatched => exact absurd hlast (by decide)
  | ended _ hend =>
    rw [List.getLast?_concat, Option.some.injEq] at hlast
    rcases hend with rfl | rfl <;> exact absurd hlast (by decide)
  | suspended =>
    rw [List.getLast?_concat, Option.some.injEq] at hlast
    exact absurd hlast (by decide)

end Life

namespace Workload

/-! ### What a step does to the state of an episode -/

/-- The ways in which the state of the episode at place `i` changes. -/
inductive Turns (w : Workload) (i : ℕ) : WorkloadOp → EpisodeState → EpisodeState → Prop
  | stay (op : WorkloadOp) (s : EpisodeState) : Turns w i op s s
  | dispatched (op : WorkloadOp) {s : EpisodeState} (h : s = .admitted ∨ s = .preempted) :
      Turns w i op s .running
  | ended (op : WorkloadOp) (s : EpisodeState) {t : EpisodeState} (h : t = .lost ∨ t = .completed) :
      Turns w i op s t
  | suspended (g : WorkloadGeneration) (s : EpisodeState) (hi : w.currentPlace = i)
      (hw : w.state = .suspendRequested ∨ w.state = .suspending) :
      Turns w i (.completeSuspend g) s .suspended

theorem turns_editAt {w : Workload} {op : WorkloadOp} (hg : w.Granted op) (hop : Governs op)
    {i : ℕ} {e : Episode} (hi : w.episodes[i]? = some e) :
    w.Turns i op e.state (w.editAt op i e).state := by
  cases op with
  | admitDispatch episode worker boot =>
    rw [editAt]
    split
    case isTrue hp =>
      obtain ⟨ep, hf, hd⟩ := hg
      obtain rfl := Option.some.inj ((findEpisode_of_place hp hi).symm.trans hf)
      exact .dispatched _ hd
    case isFalse => exact .stay ..
  | reportProgress | commitCompletion =>
    rw [editAt]
    split <;> exact .stay ..
  | onWorkerLost =>
    rw [editAt]
    split
    case isTrue => exact .ended _ _ (.inl rfl)
    case isFalse => exact .stay ..
  | markEpisodeCompleted =>
    rw [editAt]
    split
    case isTrue => exact .ended _ _ (.inr rfl)
    case isFalse => exact .stay ..
  | markEpisodeFailed => exact hop.elim
  | completeSuspend g =>
    rw [editAt]
    split
    case isTrue hp =>
      obtain ⟨-, hst⟩ := hg
      exact .suspended _ _ hp.1 (hst.resolve_left hp.2)
    case isFalse => exact .stay ..
  | _ => exact .stay ..

/-! ### At rest -/

/-- An incarnation is under way in these states of a workload. -/
def underWay : WorkloadState → Bool
  | .starting | .running | .suspendRequested | .suspending | .migrationPending => true
  | _ => false

/-- **Only a new incarnation gets under way again.** -/
theorem Step.at_rest {w w' : Workload} {op : WorkloadOp} {o : Outcome} (h : Step w op o w')
    (hop : Governs op) (hw : w.Governed) (hrest : underWay w.state = false)
    (hnew : w.newEpisode op = none) : underWay w'.state = false := by
  have htable : ∀ e ∈ kTransitionTable, engineState e.1 = true → underWay e.1 = false →
      e.2 ≠ .suspendRequested ∧ e.2 ≠ .migrationPending := by decide
  have hadmits {t : WorkloadState} (ha : w.Admits t) :
      t ≠ .suspendRequested ∧ t ≠ .migrationPending := by
    rcases ha with rfl | ⟨-, he, -⟩
    · constructor <;> intro heq <;> rw [heq] at hrest <;> exact absurd hrest (by decide)
    · exact htable _ (mem_of_canTransition he) hw.state hrest
  rcases h.state_cases with heq | ⟨-, hm⟩
  · rw [heq, hrest]
  cases op with
  | transition =>
    obtain rfl : _ = WorkloadState.validating := hop
    rw [hm.1]
    rfl
  | settle =>
    have ht := settleTarget_awaits hm.1
    revert ht
    cases w'.state <;> decide
  | startEpisode | commitMigration => exact absurd hnew (by simp [newEpisode])
  | admitDispatch =>
    rw [hm.2] at hrest
    exact absurd hrest (by decide)
  | finalize => exact hop.elim
  | requestSuspend => exact ((hadmits hm.2).1 rfl).elim
  | requestMigration => exact ((hadmits hm.2).2 rfl).elim
  | completeSuspend | onWorkerLost | commitCompletion | requestCancellationWorkloadScope
  | completeCancellation | planRestart | requestResume =>
    rw [hm.1]
    rfl
  | _ => exact hm.elim

/-- What has been suspended is not suspended again before a new incarnation comes. -/
theorem Step.rested {w w' : Workload} {op : WorkloadOp} {o : Outcome} (h : Step w op o w')
    (hop : Governs op) (hw : w.Governed) {i : ℕ} (hlt : i < w.episodes.length)
    (hrest : i + 1 < w.episodes.length ∨ underWay w.state = false) :
    i + 1 < w'.episodes.length ∨ underWay w'.state = false := by
  rcases h.granted_or with hg | ⟨-, rfl, -⟩
  case inr => exact hrest
  have hlength := congrArg List.length (h.episodes_eq hg)
  rw [List.length_append, List.length_mapIdx] at hlength
  rcases hrest with hlater | hrest
  · exact .inl (by omega)
  cases hnew : w.newEpisode op with
  | some ep =>
    rw [hnew, Option.toList_some, List.length_singleton] at hlength
    exact .inl (by omega)
  | none => exact .inr (h.at_rest hop hw hrest hnew)

/-! ### Lives, step by step -/

/-- The life of the episode at place `i` so far, which is suspended at most once. -/
structure Lived (states : List EpisodeState) (w : Workload) (i : ℕ) : Prop where
  life : Life states
  now : ∃ e, w.episodes[i]? = some e ∧ states.getLast? = some e.state
  rested : .suspended ∈ states → i + 1 < w.episodes.length ∨ underWay w.state = false

/-- The current episode stands last. -/
theorem Authority.currentPlace_last {w : Workload} (h : w.Authority) {i : ℕ} {e : Episode}
    (hi : w.episodes[i]? = some e) (hcurrent : w.currentPlace = i) :
    i + 1 = w.episodes.length :=
  h.soleLast.place hi (authoritative_of_current h.soleLast (currentEpisode_of_place hcurrent hi))

/-- A pushed episode begins its life. -/
theorem Step.lived {w w' : Workload} {op : WorkloadOp} {o : Outcome} (hs : Step w op o w') {i : ℕ}
    (hi : w.episodes[i]? = none) {e : Episode} (he : w'.episodes[i]? = some e) :
    w'.Lived [e.state] i := by
  rcases hs.granted_or with hg | ⟨-, rfl, -⟩
  case inr => exact absurd (hi.symm.trans he) (by simp)
  obtain ⟨-, hnew⟩ := (hs.episode_new hg (List.getElem?_eq_none_iff.mp hi)).mp he
  have hborn : e.state = .admitted ∨ e.state = .running := by
    cases op with
    | startEpisode => exact .inl (congrArg Episode.state (Option.some.inj hnew)).symm
    | commitMigration => exact .inr (congrArg Episode.state (Option.some.inj hnew)).symm
    | _ => exact absurd hnew (by simp [newEpisode])
  refine ⟨?_, ⟨e, he, rfl⟩, fun hmem => ?_⟩
  · rcases hborn with hb | hb <;> rw [hb]
    · exact .admitted
    · exact .migrated
  · rw [← List.mem_singleton.mp hmem] at hborn
    exact absurd hborn (by decide)

/-- **A step prolongs a life or leaves it as it is.** -/
theorem Lived.step {states : List EpisodeState} {w w' : Workload} {i : ℕ} {op : WorkloadOp}
    {o : Outcome} (h : Lived states w i) (hauth : w.Authority) (hw : w.Governed)
    (hop : Governs op) (hs : Step w op o w') :
    ∃ e e', w.episodes[i]? = some e ∧ w'.episodes[i]? = some e' ∧
      Lived (if e.state = e'.state then states else states ++ [e'.state]) w' i := by
  obtain ⟨e, hi, hlast⟩ := h.now
  rcases hs.episode_at hi with ⟨hg, he'⟩ | ⟨-, rfl, -⟩
  case inr =>
    refine ⟨e, e, hi, hi, ?_⟩
    rw [if_pos rfl]
    exact h
  have hlt : i < w.episodes.length := (List.getElem?_eq_some_iff.mp hi).1
  have hrested (hmem : .suspended ∈ states) := hs.rested hop hw hlt (h.rested hmem)
  refine ⟨e, _, hi, he', ?_⟩
  have hturns := turns_editAt hg hop hi
  by_cases hsame : e.state = (w.editAt op i e).state
  · rw [if_pos hsame]
    exact ⟨h.life, ⟨_, he', hlast.trans (congrArg some hsame)⟩, hrested⟩
  rw [if_neg hsame]
  have hnow : (states ++ [(w.editAt op i e).state]).getLast? = some (w.editAt op i e).state :=
    List.getLast?_concat ..
  generalize hs' : (w.editAt op i e).state = s' at hturns hsame hnow ⊢
  have hne : states.getLast? ≠ some s' := fun heq =>
    hsame (Option.some.inj (hlast.symm.trans heq))
  cases hturns with
  | stay => exact absurd rfl hsame
  | dispatched _ hd =>
    have hadmitted : e.state = .admitted := by
      refine hd.resolve_right fun hp => ?_
      have hmem := h.life.mem (List.mem_of_getLast? hlast)
      rw [hp] at hmem
      exact absurd hmem (by decide)
    obtain rfl := h.life.eq_of_admitted (hlast.trans (congrArg some hadmitted))
    exact ⟨.dispatched, ⟨_, he', hnow.trans (congrArg some hs'.symm)⟩,
      fun hmem => absurd hmem (by decide)⟩
  | ended _ _ hend =>
    refine ⟨h.life.ended hend hne, ⟨_, he', hnow.trans (congrArg some hs'.symm)⟩, fun hmem => ?_⟩
    rcases List.mem_append.mp hmem with hmem | hmem
    · exact hrested hmem
    · rw [← List.mem_singleton.mp hmem] at hend
      exact absurd hend (by decide)
  | suspended g _ hplace hst =>
    have hfirst : .suspended ∉ states := by
      intro hmem
      rcases h.rested hmem with hlater | hrest
      · exact absurd (hauth.currentPlace_last hi hplace) (by omega)
      · rcases hst with hst | hst <;> rw [hst] at hrest <;> exact absurd hrest (by decide)
    refine ⟨h.life.suspended hfirst, ⟨_, he', hnow.trans (congrArg some hs'.symm)⟩,
      fun _ => .inr ?_⟩
    cases hs with
    | rejected _ hn => exact absurd hg hn
    | suspendedAgain _ hagain =>
      rw [hagain] at hst
      exact absurd hst (by decide)
    | suspended => exact congrArg underWay (moved_state ..)

/-! ### What prolongs a life -/

/-- What it takes to address an episode. -/
structure Post where
  place : ℕ
  episode : ExecutionEpisodeId
  worker : WorkerId
  boot : WorkerBootId
  generation : WorkloadGeneration

/-- How the episode is found there. -/
def badge (e : Episode) : Bool × WorkerId × WorkerBootId := (e.authoritative, e.worker, e.boot)

/-- The post is that of the current episode. -/
structure PoisedAt (w : Workload) (p : Post) : Prop where
  generation : w.generation = p.generation
  place : w.place p.episode = p.place
  found : w.episodes[p.place]?.map badge = some (true, p.worker, p.boot)

/-- What makes an episode LOST, COMPLETED or SUSPENDED. -/
inductive Prolongs (p : Post) : EpisodeState → WorkloadOp → (Episode → Episode) → Prop
  | lost : Prolongs p .lost (.onWorkerLost p.worker p.boot p.generation) loseWorker
  | completed : Prolongs p .completed (.markEpisodeCompleted p.episode) completeEpisode
  | suspended : Prolongs p .suspended (.completeSuspend p.generation) suspendEpisode

section Prolonging

variable {w w' : Workload} {p : Post} {s : EpisodeState} {op : WorkloadOp}
  {f : Episode → Episode} {o : Outcome}

/-- The workload lets it happen. -/
def Lets (w : Workload) (s : EpisodeState) : Prop :=
  w.state = .suspendRequested ∨ w.state = .suspended ∧ s ≠ .suspended

theorem Prolongs.granted (hp : Prolongs p s op f) (h : PoisedAt w p) (hauth : w.Authority)
    (hlets : w.Lets s) {e : Episode} (hi : w.episodes[p.place]? = some e)
    (he : badge e = (true, p.worker, p.boot)) :
    w.Granted op ∧ w.editAt op p.place e = f e := by
  obtain ⟨ha, hworker, hboot⟩ : e.authoritative = true ∧ e.worker = p.worker ∧ e.boot = p.boot := by
    simpa [badge] using he
  have hcurrent := hauth.currentPlace_eq hi ha
  cases hp with
  | lost =>
    exact ⟨⟨h.generation.symm, e, currentEpisode_of_place hcurrent hi, hworker, hboot⟩,
      if_pos hcurrent⟩
  | completed => exact ⟨⟨e, findEpisode_of_place h.place hi⟩, if_pos h.place⟩
  | suspended =>
    have hw : w.state = .suspendRequested := hlets.resolve_right fun hw => hw.2 rfl
    exact ⟨⟨h.generation.symm, .inr (.inl hw)⟩, if_pos ⟨hcurrent, by rw [hw]; decide⟩⟩

theorem Prolongs.quiet (hp : Prolongs p s op f) (hs : Step w op o w') : Quiet w w' := by
  rcases hs.standing_cases with hq | ⟨_, _, _, _, rfl, -⟩ | ⟨_, _, _, rfl, -⟩ |
    ⟨_, _, _, _, _, _, rfl, -⟩
  · exact hq
  all_goals cases hp

/-- The workload stays where it is, or is suspended with the episode. -/
theorem Prolongs.state (hp : Prolongs p s op f) (hlets : w.Lets s) (hg : w.Granted op)
    (hs : Step w op o w') :
    w'.state = if s = .suspended then .suspended else w.state := by
  cases hp with
  | lost =>
    rcases hs.state_cases with heq | ⟨-, -, hst⟩
    · exact heq
    · rcases hlets with hw | ⟨hw, -⟩ <;> rw [hw] at hst <;> exact absurd hst (by decide)
  | completed =>
    rcases hs.state_cases with heq | ⟨-, hm⟩
    · exact heq
    · exact hm.elim
  | suspended =>
    have hw : w.state = .suspendRequested := hlets.resolve_right fun hw => hw.2 rfl
    cases hs with
    | rejected _ hn => exact absurd hg hn
    | suspendedAgain _ hagain => exact absurd (hw.symm.trans hagain) (by decide)
    | suspended => exact moved_state ..

theorem place_of_quiet (hq : Quiet w w') (episode : ExecutionEpisodeId) :
    w'.place episode = w.place episode := by
  have hplace (w : Workload) :
      w.place episode = (w.episodes.map Episode.standing).findIdx (·.1 == episode) := by
    rw [List.findIdx_map]
    rfl
  rw [hplace, hplace, hq.standing]

/-- **At a post any end can be brought about, and a suspension that is asked for.** -/
theorem PoisedAt.step (h : PoisedAt w p) (hauth : w.Authority) (hlets : w.Lets s)
    (hp : Prolongs p s op f) (hs : Step w op o w') :
    PoisedAt w' p ∧ w'.episodes[p.place]?.map (·.state) = some s ∧
      w'.state = if s = .suspended then .suspended else w.state := by
  obtain ⟨e, hi, hbadge⟩ := Option.map_eq_some_iff.mp h.found
  obtain ⟨hg, hedit⟩ := hp.granted h hauth hlets hi hbadge
  have hq := hp.quiet hs
  have hi' : w'.episodes[p.place]? = some (f e) := by
    rcases hs.episode_at hi with ⟨-, hi'⟩ | ⟨hn, -⟩
    · rw [hi', hedit]
    · exact absurd hg hn
  have hf : badge (f e) = badge e ∧ (f e).state = s := by
    cases hp <;> exact ⟨rfl, rfl⟩
  refine ⟨⟨hq.generation.trans h.generation, (place_of_quiet hq _).trans h.place, ?_⟩, ?_,
    hp.state hlets hg hs⟩
  · rw [hi', Option.map_some, hf.1, hbadge]
  · rw [hi', Option.map_some, hf.2]

end Prolonging

end Workload

open Workload

namespace WorkloadEngine

variable {σ : Type} [StateStore σ]

/-! ### Runs -/

/-- The state that the episode at place `i` of the workload shows. -/
def episodeState (id : WorkloadId) (i : ℕ) (e : WorkloadEngine σ) : Option EpisodeState :=
  (e.get id).bind fun w => w.episodes[i]?.map (·.state)

/-- What it has shown in the run, without repetitions. -/
def episodeLife (store : Option σ) (id : WorkloadId) (i : ℕ) (calls : List EngineCall) :
    List EpisodeState :=
  Machine.course (fun e c => (e.step c).2) (episodeState id i) (ofStore store) calls

omit [StateStore σ] in
theorem episodeState_eq {e : WorkloadEngine σ} {id : WorkloadId} {w : Workload}
    (h : e.get id = some w) (i : ℕ) : episodeState id i e = w.episodes[i]?.map (·.state) := by
  rw [episodeState, h, Option.bind_some]

/-- A life goes on. -/
theorem lived_on {store : Option σ} {id : WorkloadId} {i : ℕ} {calls : List EngineCall}
    {w : Workload} (hw : ((ofStore store).run calls).get id = some w)
    (h : w.Lived (episodeLife store id i calls) i) (c : EngineCall) :
    ∃ w', ((ofStore store).run (calls ++ [c])).get id = some w' ∧
      w'.Lived (episodeLife store id i (calls ++ [c])) i := by
  obtain ⟨e, hi, -⟩ := h.now
  have hshown : episodeState id i ((ofStore store).run calls) = some e.state := by
    rw [episodeState_eq hw, hi, Option.map_some]
  rw [run_append_singleton]
  rcases ((ofStore store).run calls).step_get_cases hw c with ⟨-, hsame⟩ | ⟨r, w', -, hw', hs⟩
  · refine ⟨w, hsame, ?_⟩
    have hshown' : episodeState id i (((ofStore store).run calls).step c).2 = some e.state := by
      rw [episodeState_eq hsame, hi, Option.map_some]
    rw [← run_append_singleton] at hshown'
    rw [episodeLife, Machine.course_concat hshown hshown', if_pos rfl]
    exact h
  · obtain ⟨e₀, e', hi₀, hi', h'⟩ := h.step (authority_of_run hw) (governed_of_run hw)
      (r.governs _ w) hs
    obtain rfl := Option.some.inj (hi.symm.trans hi₀)
    have hshown' : episodeState id i (((ofStore store).run calls).step c).2 = some e'.state := by
      rw [episodeState_eq hw', hi', Option.map_some]
    rw [← run_append_singleton] at hshown'
    refine ⟨w', hw', ?_⟩
    rw [episodeLife, Machine.course_concat hshown hshown']
    exact h'

/-- **After every run an episode that is there has a life behind it.** -/
theorem lived_of_run (store : Option σ) (id : WorkloadId) (i : ℕ) (calls : List EngineCall) :
    (episodeLife store id i calls = [] ∧ episodeState id i ((ofStore store).run calls) = none) ∨
      ∃ w, ((ofStore store).run calls).get id = some w ∧
        w.Lived (episodeLife store id i calls) i := by
  induction calls using List.reverseRecOn with
  | nil =>
    have hnone : episodeState id i (ofStore store) = none := by simp [episodeState, ofStore, get]
    exact .inl ⟨by simp [episodeLife, Machine.course, Machine.shown, hnone], hnone⟩
  | append_singleton calls c ih =>
    rcases ih with ⟨hlife, hnone⟩ | ⟨w, hw, hlived⟩
    case inr => exact .inr (lived_on hw hlived c)
    cases hshown : episodeState id i ((ofStore store).run (calls ++ [c])) with
    | none => exact .inl ⟨Machine.course_unborn hlife hshown, rfl⟩
    | some s =>
      -- born with this call
      right
      rw [episodeLife, Machine.course_born hlife hshown]
      obtain ⟨w', hw', hstate⟩ := Option.bind_eq_some_iff.mp hshown
      obtain ⟨e, he, rfl⟩ := Option.map_eq_some_iff.mp hstate
      refine ⟨w', hw', ?_⟩
      rw [run_append_singleton] at hw'
      cases hw : ((ofStore store).run calls).get id with
      | none =>
        rcases ((ofStore store).run calls).step_get_none hw c with hn | ⟨_, _, _, -, hn⟩
        · exact absurd (hn.symm.trans hw') (by simp)
        · obtain rfl := Option.some.inj (hn.symm.trans hw')
          exact absurd he (by simp [Workload.create])
      | some w =>
        have hi : w.episodes[i]? = none := by
          rw [episodeState_eq hw] at hnone
          exact Option.map_eq_none_iff.mp hnone
        rcases ((ofStore store).run calls).step_get_cases hw c with
          ⟨-, hsame⟩ | ⟨r, w'', -, hw'', hs⟩
        · obtain rfl := Option.some.inj (hsame.symm.trans hw')
          exact absurd (hi.symm.trans he) (by simp)
        · obtain rfl := Option.some.inj (hw''.symm.trans hw')
          exact hs.lived hi he

/-! ### Every life is lived -/

/-- What brings the episode to this state. -/
def prolonging (p : Post) : EpisodeState → Request
  | .lost => .onWorkerLost p.worker p.boot p.generation
  | .completed => .episodeCompleted p.episode
  | _ => .completeSuspend p.generation

/-- Some run leads an episode through this life, and leaves it at a post. -/
structure Realized (store : Option σ) (states : List EpisodeState) (calls : List EngineCall)
    (w : Workload) (p : Post) : Prop where
  get : ((ofStore store).run calls).get (.fromU64 1) = some w
  poised : w.PoisedAt p
  state : w.state = if .suspended ∈ states then .suspended else .suspendRequested
  life : episodeLife store (.fromU64 1) p.place calls = states

/-- The life is prolonged by one call. -/
theorem Realized.prolong {store : Option σ} {states : List EpisodeState}
    {calls : List EngineCall} {w : Workload} {p : Post} (h : Realized store states calls w p)
    {s : EpisodeState} (hs : s = .lost ∨ s = .completed ∨ s = .suspended)
    (hlast : states.getLast? ≠ some s) (hfirst : s = .suspended → .suspended ∉ states) :
    ∃ w', Realized store (states ++ [s]) (calls ++ [.on (.fromU64 1) (prolonging p s)]) w' p := by
  obtain ⟨w', hw', hstep⟩ := ((ofStore store).run calls).step_on_step h.get (prolonging p s)
  rw [← run_append_singleton] at hw'
  have hlets : w.Lets s := by
    rw [Lets, h.state]
    by_cases hmem : .suspended ∈ states
    · rw [if_pos hmem]
      exact .inr ⟨rfl, fun heq => hfirst heq hmem⟩
    · exact .inl (if_neg hmem)
  obtain ⟨op, f, hp, hop⟩ : ∃ op f, Prolongs p s op f ∧
      (prolonging p s).operation ((ofStore store).run calls).episodeCounter w = op := by
    rcases hs with rfl | rfl | rfl
    · exact ⟨_, _, .lost, rfl⟩
    · exact ⟨_, _, .completed, rfl⟩
    · exact ⟨_, _, .suspended, rfl⟩
  rw [hop] at hstep
  obtain ⟨hpoised, hstate, hw⟩ := h.poised.step (authority_of_run h.get) hlets hp hstep
  refine ⟨w', hw', hpoised, ?_, ?_⟩
  · rw [hw, h.state]
    by_cases hsus : s = .suspended
    · rw [if_pos hsus, if_pos (by simp [hsus])]
    · rw [if_neg hsus]
      simp [Ne.symm hsus]
  · obtain ⟨e, hi, hbadge⟩ := Option.map_eq_some_iff.mp h.poised.found
    have hshown : episodeState (.fromU64 1) p.place ((ofStore store).run calls) = some e.state := by
      rw [episodeState_eq h.get, hi, Option.map_some]
    have hne : e.state ≠ s := by
      rintro rfl
      exact hlast (h.life ▸ Machine.getLast?_course hshown)
    rw [episodeLife, Machine.course_concat hshown ((episodeState_eq hw' _).trans hstate),
      if_neg hne]
    exact congrArg (· ++ [s]) h.life

/-- The life of an episode does not depend on the store. -/
theorem episodeLife_of_store {τ : Type} [StateStore τ] (store : Option σ) (store' : Option τ)
    (id : WorkloadId) (i : ℕ) (calls : List EngineCall) :
    episodeLife store' id i calls = episodeLife store id i calls := by
  have hshown (pre : List EngineCall) : episodeState id i ((ofStore store').run pre) =
      episodeState id i ((ofStore store).run pre) := by
    rw [episodeState, get_run_of_store store store', episodeState]
  exact congrArg (List.destutter _) (congrArg (List.filterMap · _) (funext hshown))

/-- An episode that waits for its dispatch while an older one runs. -/
def waiting : List Request :=
  toRunning.take 4 ++ [.settle, .startEpisode (.fromU64 1) (.fromU64 1),
    .admitDispatch (.fromU64 1000) (.fromU64 1) (.fromU64 1), .requestSuspend (.fromU64 3)]

/-- The target of a migration. -/
def migrated : List Request :=
  running [.requestMigration (.fromU64 2), .commitMigration (.fromU64 2) (.fromU64 1) (.fromU64 1),
    .requestSuspend (.fromU64 3)]

/-- A tour that leaves an episode at a post, with a life behind it. -/
theorem realized_of_tour (store : Option σ) (rs : List Request) (p : Post)
    {states : List EpisodeState}
    (hpost : (toured rs).map (fun w => (w.generation, w.place p.episode,
      w.episodes[p.place]?.map badge, w.state)) =
        some (p.generation, p.place, some (true, p.worker, p.boot), .suspendRequested))
    (hlife : episodeLife (none : Option (MemoryStateStore .leftToRight)) (.fromU64 1) p.place
      (tour rs) = states) (hstates : .suspended ∉ states) :
    ∃ w, Realized store states (tour rs) w p := by
  obtain ⟨w, hw, hpost⟩ := Option.map_eq_some_iff.mp hpost
  simp only [Prod.mk.injEq] at hpost
  obtain ⟨hgeneration, hplace, hfound, hstate⟩ := hpost
  refine ⟨w, (get_run_of_store none store (tour rs) (.fromU64 1)).trans hw,
    ⟨hgeneration, hplace, hfound⟩, ?_, (episodeLife_of_store none store ..).trans hlife⟩
  rw [hstate, if_neg hstates]

theorem exists_realized (store : Option σ) {states : List EpisodeState} (h : Life states) :
    ∃ calls w p, Realized store states calls w p := by
  induction h with
  | admitted =>
    obtain ⟨w, hw⟩ := realized_of_tour store waiting
      ⟨1, .fromU64 1001, .fromU64 0, .fromU64 0, .fromU64 3⟩ rfl rfl (by decide)
    exact ⟨_, w, _, hw⟩
  | migrated =>
    obtain ⟨w, hw⟩ := realized_of_tour store migrated
      ⟨1, .fromU64 2000, .fromU64 1, .fromU64 1, .fromU64 3⟩ rfl rfl (by decide)
    exact ⟨_, w, _, hw⟩
  | dispatched =>
    obtain ⟨w, hw⟩ := realized_of_tour store (running [.requestSuspend (.fromU64 2)])
      ⟨0, .fromU64 1000, .fromU64 1, .fromU64 1, .fromU64 2⟩ rfl rfl (by decide)
    exact ⟨_, w, _, hw⟩
  | ended _ hs hlast ih =>
    obtain ⟨calls, w, p, hr⟩ := ih
    obtain ⟨w', hw'⟩ := hr.prolong (hs.imp_right .inl) hlast (fun heq => by
      rw [heq] at hs
      exact absurd hs (by decide))
    exact ⟨_, w', p, hw'⟩
  | suspended _ hfirst ih =>
    obtain ⟨calls, w, p, hr⟩ := ih
    obtain ⟨w', hw'⟩ := hr.prolong (.inr (.inr rfl))
      (fun heq => hfirst (List.mem_of_getLast? heq)) (fun _ => hfirst)
    exact ⟨_, w', p, hw'⟩

/-- **The lives of the episodes of an engine**: whatever the store, an episode has shown nothing
yet, or it has one of these lives behind it, and each of them is lived in some run. -/
theorem episode_life_iff (store : Option σ) (states : List EpisodeState) :
    (∃ id i calls, episodeLife store id i calls = states) ↔ states = [] ∨ Life states := by
  constructor
  · rintro ⟨id, i, calls, rfl⟩
    rcases lived_of_run store id i calls with ⟨hlife, -⟩ | ⟨w, -, hlived⟩
    · exact .inl hlife
    · exact .inr hlived.life
  · rintro (rfl | hlife)
    · rcases lived_of_run store (.fromU64 1) 0 [] with ⟨hlife, -⟩ | ⟨w, hw, -⟩
      · exact ⟨_, _, _, hlife⟩
      · exact absurd hw (by simp [ofStore, run, get])
    · obtain ⟨calls, w, p, hr⟩ := exists_realized store hlife
      exact ⟨_, _, _, hr.life⟩

end WorkloadEngine

end WorkloadFabric
