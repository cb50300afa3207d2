/-
A cancellation and a completion race.

One client cancels a running workload, another one reports the result and commits the
completion; both may call as often as they like, others may call as well, and the
engine takes the calls in some order.  Some of the calls decide the race (`verdict`):

* **`race_decided`** — in whatever order the calls come, the first that decides decides
  for all; if none does, the workload is RUNNING, or CANCELLATION_REQUESTED if somebody
  has asked for it.
-/
import WorkloadFabric.CompletionCriteria
import WorkloadFabric.ProgressAccounts
import WorkloadFabric.Interleaving

namespace WorkloadFabric

open Interleaving

/-! ### Verdicts -/

/-- The request leaves the race alone: it neither changes the policy nor takes a running
workload from its worker. -/
def Request.contends : Request → Bool
  | .setPolicy _ | .onWorkerLost _ _ _ | .requestSuspend _ | .requestMigration _ => false
  | _ => true

namespace Workload

/-- The id is found, and at the current episode. -/
def namesCurrent (w : Workload) (id : ExecutionEpisodeId) : Bool :=
  w.currentEpisode.isSome && w.place id == w.currentPlace

/-- The request reports the end of the current episode. -/
def reportsEnd (w : Workload) : Request → Bool
  | .episodeCompleted episode => w.namesCurrent episode
  | _ => false

/-- The current episode has completed, at the latest with these requests. -/
def delivered (w : Workload) (rs : List Request) : Bool :=
  w.currentEpisode.any (·.completed) || rs.any w.reportsEnd

/-- A cancellation is on record, at the latest with these requests. -/
def raised (w : Workload) (rs : List Request) : Bool :=
  w.cancellationRequested || decide (Request.cancel w.generation ∈ rs)

/-- A commit goes through after these requests. -/
def commits (w : Workload) (rs : List Request) : Bool :=
  w.policy.completion.kind == .singleResult && w.delivered rs &&
    !(w.raised rs && w.policy.cancelRace == .cancelFirst)

/-- Where a request that comes after these takes the workload, if it decides the race. -/
def verdict (w : Workload) (rs : List Request) : Request → Option WorkloadState
  | .completeCancellation g => if g = w.generation then some .cancelled else none
  | .commitCompletion g => if g = w.generation ∧ w.commits rs = true then some .completed else none
  | _ => none

/-- What the first request decides that decides anything. -/
def raceVerdict (w : Workload) (rs : List Request) : Option WorkloadState :=
  firstDecision w.verdict [] rs

/-- Where the race ends. -/
def raceEnd (w : Workload) (rs : List Request) : WorkloadState :=
  (w.raceVerdict rs).getD
    (if Request.cancel w.generation ∈ rs then .cancellationRequested else .running)

theorem raceVerdict_append_singleton (w : Workload) (rs : List Request) (r : Request) :
    w.raceVerdict (rs ++ [r]) = (w.raceVerdict rs).or (w.verdict rs r) :=
  firstDecision_append_singleton w.verdict [] rs r

/-! ### Places that stay -/

/-- What a search among the episodes looks at. -/
def keys (w : Workload) : List (ExecutionEpisodeId × Bool) :=
  w.episodes.map fun e => (e.id, e.authoritative)

section Keys

variable {w w' : Workload}

theorem place_of_keys (h : w'.keys = w.keys) (id : ExecutionEpisodeId) :
    w'.place id = w.place id := by
  have hkeys (w : Workload) : w.place id = w.keys.findIdx (·.1 == id) := by
    rw [place, keys, List.findIdx_map]
    rfl
  rw [hkeys, hkeys, h]

theorem currentPlace_of_keys (h : w'.keys = w.keys) : w'.currentPlace = w.currentPlace := by
  have hkeys (w : Workload) : w.currentPlace =
      if w.keys.any (·.2) then w.keys.findIdx (·.2) else w.keys.length - 1 := by
    rw [currentPlace, keys, List.any_map, List.findIdx_map, List.length_map]
    rfl
  rw [hkeys, hkeys, h]

theorem currentEpisode_eq_none_iff : w.currentEpisode = none ↔ w.keys = [] := by
  rw [currentEpisode, Option.or_eq_none_iff, List.getLast?_eq_none_iff, keys, List.map_eq_nil_iff]
  exact and_iff_right_of_imp fun h => by rw [h]; rfl

theorem namesCurrent_of_keys (h : w'.keys = w.keys) (id : ExecutionEpisodeId) :
    w'.namesCurrent id = w.namesCurrent id := by
  have hsome : w'.currentEpisode.isSome = w.currentEpisode.isSome := by
    rw [Bool.eq_iff_iff, Option.isSome_iff_ne_none, Option.isSome_iff_ne_none, Ne, Ne,
      currentEpisode_eq_none_iff, currentEpisode_eq_none_iff, h]
  rw [namesCurrent, namesCurrent, hsome, place_of_keys h, currentPlace_of_keys h]

end Keys

/-- Requests other than a start and a handover keep them. -/
theorem Step.keys_eq {w w' : Workload} {op : WorkloadOp} {o : Outcome} (h : Step w op o w')
    (hstart : ∀ id owner ownerGen adv, op = .startEpisode id owner ownerGen adv → ¬w.Granted op)
    (hcommit : ∀ g worker boot, op = .commitMigration g worker boot → ¬w.Granted op) :
    w'.keys = w.keys := by
  rcases h.granted_or with hg | ⟨-, rfl, -⟩
  case inr => rfl
  have hedit (i : ℕ) (e : Episode) :
      ((w.editAt op i e).id, (w.editAt op i e).authoritative) = (e.id, e.authoritative) := by
    cases op with
    | startEpisode => exact absurd hg (hstart _ _ _ _ rfl)
    | commitMigration => exact absurd hg (hcommit _ _ _ rfl)
    | admitDispatch | reportProgress | commitCompletion | onWorkerLost | markEpisodeCompleted
    | markEpisodeFailed | completeSuspend =>
      rw [editAt]
      split
      · rfl
      · rfl
    | _ => rfl
  have hnew : w.newEpisode op = none := by
    cases op with
    | startEpisode => exact absurd hg (hstart _ _ _ _ rfl)
    | commitMigration => exact absurd hg (hcommit _ _ _ rfl)
    | _ => rfl
  rw [keys, h.episodes_eq hg, hnew, Option.toList_none, List.append_nil]
  exact List.ext_getElem? fun i => by simp [keys, hedit, Function.comp_def]

/-- No operation makes the total known. -/
theorem Step.totalKind_eq {w w' : Workload} {op : WorkloadOp} {o : Outcome} (h : Step w op o w') :
    w'.progress.totalKind = w.progress.totalKind := by
  by_cases hr : ∃ episode gen delta durable,
      op = .reportProgress episode gen delta durable ∧ o = .allow
  · obtain ⟨episode, gen, delta, durable, rfl, rfl⟩ := hr
    obtain ⟨-, hp⟩ := Progress.advance_eq_some h.report.2
    rw [hp]
  · rw [h.progress_eq fun episode gen delta durable hop => hr ⟨episode, gen, delta, durable, hop⟩]

/-- The operation reports the end of the current episode. -/
def marksCurrent (w : Workload) : WorkloadOp → Bool
  | .markEpisodeCompleted id => w.namesCurrent id
  | _ => false

/-- What becomes of the current episode while the episodes keep their places. -/
theorem Step.current_completed {w w' : Workload} {op : WorkloadOp} {o : Outcome}
    (h : Step w op o w') (hkeys : w'.keys = w.keys)
    (hcommit : ∀ g, op = .commitCompletion g → ¬w.Granted op) :
    w'.currentEpisode.any (·.completed) =
      (w.currentEpisode.any (·.completed) || w.marksCurrent op) := by
  cases hcur : w.currentEpisode with
  | none =>
    have hmarks : w.marksCurrent op = false := by
      cases op with
      | markEpisodeCompleted id => rw [marksCurrent, namesCurrent, hcur]; rfl
      | _ => rfl
    rw [currentEpisode_eq_none_iff.mpr (hkeys.trans (currentEpisode_eq_none_iff.mp hcur)), hmarks]
    rfl
  | some cur =>
    have hi := w.currentEpisode_eq_getElem?.symm.trans hcur
    have hnames (id : ExecutionEpisodeId) :
        w.namesCurrent id = true ↔ w.place id = w.currentPlace := by
      rw [namesCurrent, hcur]
      exact beq_iff_eq
    rcases h.episode_at hi with ⟨hg, hi'⟩ | ⟨hn, rfl, -⟩
    · rw [w'.currentEpisode_eq_getElem?, currentPlace_of_keys hkeys, hi', Option.any_some,
        Option.any_some, Bool.eq_iff_iff, editAt_completed, Bool.or_eq_true]
      refine or_congr_right ⟨?_, fun hmarks => ?_⟩
      · rintro (⟨id, rfl, hplace⟩ | ⟨g, hop, -⟩)
        · exact (hnames id).mpr hplace
        · exact absurd hg (hcommit g hop)
      · cases op with
        | markEpisodeCompleted id => exact .inl ⟨id, rfl, (hnames id).mp hmarks⟩
        | _ => exact absurd hmarks Bool.false_ne_true
    · -- a report that names the current episode finds it
      have hmarks : w'.marksCurrent op = false := by
        cases op with
        | markEpisodeCompleted id =>
          rw [Bool.eq_false_iff]
          exact fun hm => hn ⟨cur, findEpisode_of_place ((hnames id).mp hm) hi⟩
        | _ => rfl
      rw [hcur, hmarks, Bool.or_false]

/-! ### While nothing has been decided -/

/-- The race is open after these requests. -/
structure RaceOpen (w : Workload) (rs : List Request) (w' : Workload) : Prop where
  policy : w'.policy = w.policy
  generation : w'.generation = w.generation
  /-- the engine knows no totals, so only a result meets a criterion -/
  unknown : w'.progress.totalKind = .unknown
  keys : w'.keys = w.keys
  state : w'.state = if Request.cancel w.generation ∈ rs then .cancellationRequested else .running
  requested : w'.cancellationRequested = w.raised rs
  completed : w'.currentEpisode.any (·.completed) = w.delivered rs

namespace RaceOpen

variable {w w' w'' : Workload} {rs : List Request} {r : Request} {counter : UInt64} {o : Outcome}
  {g : WorkloadGeneration}

theorem begin (hw : w.state = .running) (hunknown : w.progress.totalKind = .unknown) :
    w.RaceOpen [] w where
  policy := rfl
  generation := rfl
  unknown := hunknown
  keys := rfl
  state := by rw [hw, if_neg (List.not_mem_nil)]
  requested := by rw [raised, decide_eq_false (List.not_mem_nil), Bool.or_false]
  completed := by rw [delivered, List.any_nil, Bool.or_false]

theorem state_cases (h : RaceOpen w rs w') :
    w'.state = .running ∨ w'.state = .cancellationRequested := by
  rw [h.state]
  split
  · exact .inr rfl
  · exact .inl rfl

theorem not_terminal (h : RaceOpen w rs w') : isTerminal w'.state = false := by
  rcases h.state_cases with hs | hs
  · rw [hs]
    rfl
  · rw [hs]
    rfl

/-- Both sides can end it. -/
theorem admits (h : RaceOpen w rs w') :
    w'.Admits .completing ∧ w'.Admits .cancellationRequested := by
  rcases h.state_cases with hs | hs
  · exact ⟨admits_of_edge hs (by decide) rfl (.inl (by decide)),
      admits_of_edge hs (by decide) rfl (.inl (by decide))⟩
  · exact ⟨admits_of_edge hs (by decide) rfl (.inl (by decide)), .inl hs⟩

theorem not_start (h : RaceOpen w rs w') {id : ExecutionEpisodeId} {owner : OwnerId}
    {ownerGen : OwnerGeneration} {adv : Bool} :
    ¬w'.Granted (.startEpisode id owner ownerGen adv) := by
  rintro ⟨-, he⟩
  rcases h.state_cases with hs | hs
  · rw [hs] at he
    exact absurd he (by decide)
  · rw [hs] at he
    exact absurd he (by decide)

theorem not_handover (h : RaceOpen w rs w') {worker : WorkerId} {boot : WorkerBootId} :
    ¬w'.Granted (.commitMigration g worker boot) := by
  rintro ⟨-, hm⟩
  rcases h.state_cases with hs | hs
  · rw [hs] at hm
    exact absurd hm (by decide)
  · rw [hs] at hm
    exact absurd hm (by decide)

/-- Who commits now finds out what `commits` says. -/
theorem commit_granted_iff (h : RaceOpen w rs w') :
    w'.Granted (.commitCompletion g) ↔ g = w.generation ∧ w.commits rs = true := by
  have hcriterion : w'.completionCriterion =
      (w.policy.completion.kind == .singleResult && w.delivered rs) := by
    have hcomplete : w'.progress.complete = false := by
      rw [Bool.eq_false_iff, Ne, complete_iff, h.unknown]
      exact fun hc => absurd hc.1 (by decide)
    rw [completionCriterion, h.completed, hcomplete, h.policy, h.unknown]
    cases w.policy.completion.kind with
    | allPhases => exact Bool.and_false _
    | _ => rfl
  rw [Granted, completionGranted, h.generation, h.not_terminal, h.requested, h.policy, hcriterion,
    commits]
  cases w.raised rs <;> simp [and_comm]

/-- What decides the race takes the workload there. -/
theorem decided (h : RaceOpen w rs w') (hs : Step w' (r.operation counter w') o w'')
    {s : WorkloadState} (hv : w.verdict rs r = some s) : w''.state = s ∧ isTerminal s = true := by
  cases r with
  | commitCompletion g =>
    rw [verdict] at hv
    split at hv
    case isFalse => exact absurd hv (by simp)
    case isTrue hc =>
      obtain rfl := Option.some.inj hv
      change Step w' (.commitCompletion g) o w'' at hs
      cases hs with
      | rejected _ hn => exact absurd (h.commit_granted_iff.mpr hc) hn
      | complete => exact ⟨moved_state .., rfl⟩
      | completeRefused _ _ hn => exact absurd h.admits.1 hn
  | completeCancellation g =>
    rw [verdict] at hv
    split at hv
    case isFalse => exact absurd hv (by simp)
    case isTrue hg =>
      obtain rfl := Option.some.inj hv
      have ht := h.not_terminal
      change Step w' (.completeCancellation g) o w'' at hs
      cases hs with
      | rejected _ hn => exact absurd ⟨hg.trans h.generation.symm, .inr ht⟩ hn
      | cancelledAgain _ hs =>
        rw [hs] at ht
        exact absurd ht (by decide)
      | cancelled => exact ⟨moved_state .., rfl⟩
      | cancelledRefused _ _ hn => exact absurd h.admits.2 hn
  | _ => exact absurd hv (by simp [verdict])

/-- A commit that decides nothing is not granted, and neither is the end of a cancellation. -/
theorem commit_not_granted (h : RaceOpen w rs w')
    (hv : w.verdict rs (.commitCompletion g) = none) : ¬w'.Granted (.commitCompletion g) := by
  intro hg
  rw [verdict, if_pos (h.commit_granted_iff.mp hg)] at hv
  exact absurd hv (by simp)

theorem cancelled_not_granted (h : RaceOpen w rs w')
    (hv : w.verdict rs (.completeCancellation g) = none) :
    ¬w'.Granted (.completeCancellation g) := by
  intro hg
  rw [verdict, if_pos (hg.1.trans h.generation)] at hv
  exact absurd hv (by simp)

/-- Only a cancellation moves a workload on which nothing is decided. -/
theorem cancel_of_moves (h : RaceOpen w rs w') (hr : r.contends = true) (hv : w.verdict rs r = none)
    (hg : w'.Granted (r.operation counter w')) {s : WorkloadState}
    (hm : w'.Moves (r.operation counter w') s) : ∃ g, r = .cancel g := by
  have hedges : ∀ e ∈ kTransitionTable, e.1 = .running ∨ e.1 = .cancellationRequested →
      awaitsStart e.2 = false ∧ e.2 ≠ .restartPending := by decide
  have hadmits {t : WorkloadState} (ha : w'.Admits t)
      (ht : awaitsStart t = true ∨ t = .restartPending) : False := by
    rcases ha with heq | ⟨-, he, -⟩
    · rcases h.state_cases with hs | hs
      · rw [← heq, hs] at ht
        exact absurd ht (by decide)
      · rw [← heq, hs] at ht
        exact absurd ht (by decide)
    · obtain ⟨hwait, hpending⟩ := hedges _ (mem_of_canTransition he) h.state_cases
      rcases ht with ht | ht
      · exact Bool.false_ne_true (hwait.symm.trans ht)
      · exact hpending ht
  have hother {t : WorkloadState} (hs : w'.state = t) (ht : t ≠ .running)
      (ht' : t ≠ .cancellationRequested) : False := by
    rcases h.state_cases with hs' | hs'
    · exact ht (hs.symm.trans hs')
    · exact ht' (hs.symm.trans hs')
  cases r with
  | cancel g => exact ⟨g, rfl⟩
  | validate => exact (hadmits hm.2 (.inl rfl)).elim
  | settle => exact (hadmits hm.2 (.inl (settleTarget_awaits hm.1))).elim
  | startEpisode => exact (h.not_start hg).elim
  | admitDispatch => exact (hother hm.2 (by decide) (by decide)).elim
  | commitCompletion g => exact (h.commit_not_granted hv hg).elim
  | completeCancellation g => exact (h.cancelled_not_granted hv hg).elim
  | planRestart => exact (hadmits hm.2 (.inr rfl)).elim
  | completeSuspend =>
    rcases hm.2 with hs | hs <;> exact (hother hs (by decide) (by decide)).elim
  | requestResume =>
    rcases hm.2 with hs | hs <;> exact (hother hs (by decide) (by decide)).elim
  | commitMigration => exact (h.not_handover hg).elim
  | setPolicy | onWorkerLost | requestSuspend | requestMigration =>
    exact absurd hr Bool.false_ne_true
  | _ => exact hm.elim

/-- A cancellation with the current generation is put on record, any other is refused. -/
theorem cancel_step (h : RaceOpen w rs w')
    (hs : Step w' (.requestCancellationWorkloadScope g) o w'') :
    (g = w.generation ∧ w''.state = .cancellationRequested ∧ w''.cancellationRequested = true) ∨
      (g ≠ w.generation ∧ w'' = w') := by
  cases hs with
  | rejected _ hn =>
    exact .inr ⟨fun hg => hn ⟨hg.trans h.generation.symm, h.not_terminal⟩, rfl⟩
  | cancelAgain hg hc =>
    refine .inl ⟨hg.trans h.generation, ?_, rfl⟩
    rcases h.state_cases with hs | hs
    · rw [hs] at hc
      exact absurd hc (by decide)
    · exact hs
  | cancel hg => exact .inl ⟨hg.trans h.generation, moved_state .., by simp [flagCancellation]⟩
  | cancelRefused _ _ _ hn => exact absurd h.admits.2 hn

/-- What is written about the cancellation while nothing is decided. -/
theorem written (h : RaceOpen w rs w') (hs : Step w' (r.operation counter w') o w'')
    (hr : r.contends = true) (hv : w.verdict rs r = none) :
    (r = .cancel w.generation ∧ w''.state = .cancellationRequested ∧
        w''.cancellationRequested = true) ∨
      (r ≠ .cancel w.generation ∧ w''.state = w'.state ∧
        w''.cancellationRequested = w'.cancellationRequested) := by
  by_cases hc : ∃ g, r = .cancel g
  · obtain ⟨g, rfl⟩ := hc
    rcases h.cancel_step hs with ⟨rfl, hst, hreq⟩ | ⟨hg, rfl⟩
    · exact .inl ⟨rfl, hst, hreq⟩
    · exact .inr ⟨fun heq => hg (Request.cancel.inj heq), rfl, rfl⟩
  · refine .inr ⟨fun heq => hc ⟨_, heq⟩, ?_, ?_⟩
    · rcases hs.state_cases with hst | ⟨rfl, hm⟩
      · exact hst
      · exact absurd (h.cancel_of_moves hr hv hs.granted hm) hc
    · rcases hs.granted_or with hg | ⟨-, rfl, -⟩
      case inr => rfl
      rcases hs.requested_cases with heq | ⟨g, hop, -, -⟩ | ⟨-, -, ⟨g, hop⟩ | ⟨g, hop⟩⟩
      · exact heq
      · cases r with
        | commitCompletion => exact absurd hg (h.commit_not_granted hv)
        | _ => exact WorkloadOp.noConfusion hop
      · cases r with
        | cancel g' => exact absurd ⟨g', rfl⟩ hc
        | _ => exact WorkloadOp.noConfusion hop
      · cases r with
        | completeCancellation => exact absurd hg (h.cancelled_not_granted hv)
        | _ => exact WorkloadOp.noConfusion hop

/-- **What decides nothing leaves the race open.** -/
theorem undecided (h : RaceOpen w rs w') (hs : Step w' (r.operation counter w') o w'')
    (hr : r.contends = true) (hv : w.verdict rs r = none) : RaceOpen w (rs ++ [r]) w'' := by
  have hcommit (g : WorkloadGeneration) (hop : r.operation counter w' = .commitCompletion g) :
      ¬w'.Granted (r.operation counter w') := by
    cases r with
    | commitCompletion => exact h.commit_not_granted hv
    | _ => exact WorkloadOp.noConfusion hop
  have hkeys : w''.keys = w'.keys :=
    hs.keys_eq (fun _ _ _ _ hop => hop ▸ h.not_start) fun _ _ _ hop => hop ▸ h.not_handover
  have hcancel : Request.cancel w.generation ∈ rs ++ [r] ↔
      Request.cancel w.generation ∈ rs ∨ r = .cancel w.generation := by
    rw [List.mem_append, List.mem_singleton, eq_comm (a := r)]
  refine ⟨(hs.policy fun p hop => ?_).trans h.policy, ?_, hs.totalKind_eq.trans h.unknown,
    hkeys.trans h.keys, ?_, ?_, ?_⟩
  · cases r with
    | setPolicy => exact Bool.false_ne_true hr
    | _ => exact WorkloadOp.noConfusion hop
  · rcases hs.standing_cases with hq | ⟨_, _, _, _, hop, rfl, -⟩ | ⟨_, _, _, hop, rfl, -⟩ |
      ⟨_, _, _, _, _, _, -, -, -, -, -, -, rfl⟩
    · exact hq.generation.trans h.generation
    · exact absurd (hop ▸ hs.granted) h.not_start
    · exact absurd (hop ▸ hs.granted) h.not_handover
    · exact h.generation
  · rcases h.written hs hr hv with ⟨hc, hst, -⟩ | ⟨hc, hst, -⟩
    · rw [hst, if_pos (hcancel.mpr (.inr hc))]
    · rw [hst, h.state, if_congr (hcancel.trans (or_iff_left hc)) rfl rfl]
  · rcases h.written hs hr hv with ⟨hc, -, hreq⟩ | ⟨hc, -, hreq⟩
    · rw [hreq, raised, decide_eq_true (hcancel.mpr (.inr hc)), Bool.or_true]
    · rw [hreq, h.requested, raised, raised, decide_eq_decide.mpr (hcancel.trans (or_iff_left hc))]
  · rw [hs.current_completed hkeys hcommit, h.completed, delivered, delivered, List.any_append,
      Bool.or_assoc, List.any_cons, List.any_nil, Bool.or_false]
    congr 2
    cases r with
    | episodeCompleted => exact namesCurrent_of_keys h.keys _
    | _ => rfl

end RaceOpen

end Workload

open Workload

namespace WorkloadEngine

variable {σ : Type} [StateStore σ]

/-- Every registered workload has an unknown total, after every run. -/
theorem totalKind_of_run {store : Option σ} {calls : List EngineCall} {id : WorkloadId}
    {w : Workload} (h : ((ofStore store).run calls).get id = some w) :
    w.progress.totalKind = .unknown := by
  refine workload_induction (P := fun _ w => w.progress.totalKind = .unknown) ?_ ?_ ?_ calls h
  · exact fun _ _ _ _ _ => rfl
  · exact fun _ _ _ _ _ hw => hw
  · exact fun _ r w _ hw => (w.apply_step none (r.operation _ w)).totalKind_eq.trans hw

/-- How a race stands: open, or decided for good. -/
def RaceStands (w : Workload) (rs : List Request) (w' : Workload) : Prop :=
  (w.raceVerdict rs = none ∧ w.RaceOpen rs w') ∨
    (w.raceVerdict rs = some w'.state ∧ isTerminal w'.state = true)

theorem raceStands_step {w w' w'' : Workload} {rs : List Request} {r : Request} {counter : UInt64}
    {o : Outcome} (h : RaceStands w rs w') (hs : Step w' (r.operation counter w') o w'')
    (hr : r.contends = true) : RaceStands w (rs ++ [r]) w'' := by
  rw [RaceStands, raceVerdict_append_singleton]
  rcases h with ⟨hnone, hopen⟩ | ⟨hsome, ht⟩
  · rw [hnone, Option.none_or]
    cases hv : w.verdict rs r with
    | none => exact .inl ⟨rfl, hopen.undecided hs hr hv⟩
    | some s =>
      obtain ⟨rfl, ht⟩ := hopen.decided hs hv
      exact .inr ⟨rfl, ht⟩
  · rw [hsome, Option.some_or, hs.terminal ht]
    exact .inr ⟨rfl, ht⟩

/-- **The first call that decides a race decides it for all**, in whatever order the calls of
whatever clients come: from a running workload, with nobody suspending it, moving it, reporting
its worker lost or changing its policy meanwhile. -/
theorem race_decided {store : Option σ} {calls race : List EngineCall} {id : WorkloadId}
    {w : Workload} (h : ((ofStore store).run calls).get id = some w) (hw : w.state = .running)
    (hrace : ∀ r ∈ race.filterMap (·.requestOn id), r.contends = true) :
    ∃ w', ((ofStore store).run (calls ++ race)).get id = some w' ∧
      w'.state = w.raceEnd (race.filterMap (·.requestOn id)) := by
  have hopen : w.RaceOpen [] w := .begin hw (totalKind_of_run h)
  obtain ⟨w', hw', hstands⟩ := run_requests (P := RaceStands w) h (.inl ⟨rfl, hopen⟩)
    fun hr hp hs => raceStands_step hp hs (hrace _ hr)
  refine ⟨w', by rw [run_append]; exact hw', ?_⟩
  rcases hstands with ⟨hnone, hopen'⟩ | ⟨hsome, -⟩
  · rw [raceEnd, hnone]
    exact hopen'.state
  · rw [raceEnd, hsome]
    rfl

/-- The cancellation is asked for first, but the result comes before its end. -/
def cancelDuringCompletion : List EngineCall :=
  [.on (.fromU64 1) (.cancel (.fromU64 2)), .create (.fromU64 2) [] [] {},
    .on (.fromU64 1) (.episodeCompleted (.fromU64 1000)),
    .on (.fromU64 1) (.commitCompletion (.fromU64 2)),
    .on (.fromU64 1) (.completeCancellation (.fromU64 2))]

/-- Who commits first wins. -/
theorem race_decided_completed :
    ∃ w', ((ofStore (none : Option (MemoryStateStore .leftToRight))).run
      (launch (.fromU64 1) {} ++
        [.on (.fromU64 1) (.admitDispatch (.fromU64 1000) (.fromU64 1) (.fromU64 1))] ++
        cancelDuringCompletion)).get (.fromU64 1) = some w' ∧ w'.state = .completed := by
  obtain ⟨w, h, hw, hend⟩ : ∃ w, ((ofStore (none : Option (MemoryStateStore .leftToRight))).run
      (launch (.fromU64 1) {} ++
        [.on (.fromU64 1) (.admitDispatch (.fromU64 1000) (.fromU64 1) (.fromU64 1))])).get
        (.fromU64 1) = some w ∧ w.state = .running ∧
      w.raceEnd (cancelDuringCompletion.filterMap (·.requestOn (.fromU64 1))) = .completed :=
    ⟨_, rfl, by decide, by decide⟩
  have hrace : ∀ r ∈ cancelDuringCompletion.filterMap (·.requestOn (.fromU64 1)),
      r.contends = true := by decide
  obtain ⟨w', hw', hs⟩ := race_decided h hw hrace
  exact ⟨w', hw', hs.trans hend⟩

end WorkloadEngine

end WorkloadFabric
