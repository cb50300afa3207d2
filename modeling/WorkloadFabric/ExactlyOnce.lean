/-
Every unit of work is counted once, whatever becomes of the workers.

Workers that were given up as lost go on reporting, their frames arrive late and in any order
among those of others, episodes are restarted, migrated and cancelled meanwhile, and ids may
come round.  An episode is dispatched once (`Workload.admitDispatch`), the episode that is named
by its id is the authoritative one or none is, and a report that is refused is refused for good
(`Taking.of_step`); so the links of a workload are leases on its work.  The coordinator itself
neither reports nor ends an episode (`EngineCall.IsCommand`): what it tells the engine of an
episode it has read in the frames of its worker.

* **`exactly_once`** — after every run of the coordinator the segments that were counted are
  those from 0 up to the completed work, in this order, and within the total; and a COMPLETED
  workload is one whose total is reached exactly when no report of the episode that completed it
  was refused.
-/
import WorkloadFabric.Coordinator

namespace WorkloadFabric

open Leases

namespace Workload

/-! ### Episodes from step to step -/

@[simp] theorem editAt_id (w : Workload) (op : WorkloadOp) (i : ℕ) (e : Episode) :
    (w.editAt op i e).id = e.id := by
  cases op <;> first | rfl | (rw [editAt]; split <;> rfl)

@[simp] theorem editAt_generation (w : Workload) (op : WorkloadOp) (i : ℕ) (e : Episode) :
    (w.editAt op i e).generation = e.generation := by
  cases op <;> first | rfl | (rw [editAt]; split <;> rfl)

theorem id_of_found {w : Workload} {id : ExecutionEpisodeId} {ep : Episode}
    (hf : w.findEpisode id = some ep) : ep.id = id := by
  have h := List.find?_some hf
  exact beq_iff_eq.mp h

variable {w w' : Workload} {op : WorkloadOp} {o : Outcome}

/-- An episode that is found goes on being found at its place. -/
theorem Step.place_eq (h : Step w op o w') {id : ExecutionEpisodeId} {ep : Episode}
    (hf : w.findEpisode id = some ep) : w'.place id = w.place id := by
  rcases h.granted_or with hg | ⟨-, rfl, -⟩
  case inr => rfl
  have hlt : w.place id < w.episodes.length := by
    rw [findEpisode_eq_getElem?] at hf
    exact (List.getElem?_eq_some_iff.mp hf).1
  have hkeys : (w.episodes.mapIdx (w.editAt op)).findIdx (·.id == id) =
      w.episodes.findIdx (·.id == id) := by
    have hmap : (w.episodes.mapIdx (w.editAt op)).map (·.id) = w.episodes.map (·.id) :=
      List.ext_getElem? fun i => by simp [Function.comp_def]
    have hindex (l : List Episode) :
        l.findIdx (·.id == id) = (l.map (·.id)).findIdx (· == id) := by
      rw [List.findIdx_map]
      rfl
    rw [hindex, hindex, hmap]
  rw [place, place, h.episodes_eq hg, List.findIdx_append, hkeys, if_pos]
  rwa [List.length_mapIdx]

/-- What a step makes of an episode that is found. -/
theorem Step.found (h : Step w op o w') {id : ExecutionEpisodeId} {ep : Episode}
    (hf : w.findEpisode id = some ep) :
    (w.Granted op ∧ w'.findEpisode id = some (w.editAt op (w.place id) ep)) ∨ w' = w := by
  rw [findEpisode_eq_getElem?] at hf
  rcases h.episode_at hf with ⟨hg, he⟩ | ⟨-, rfl, -⟩
  · rw [← findEpisode_eq_getElem?] at hf
    exact .inl ⟨hg, by rw [findEpisode_eq_getElem?, h.place_eq hf, he]⟩
  · exact .inr rfl

/-- An episode that is named was so before. -/
theorem Step.names (h : Step w op o w') {id : ExecutionEpisodeId} {ep : Episode}
    (hf : w.findEpisode id = some ep) (hn : w'.names id = true) : w.names id = true := by
  rcases h.found hf with ⟨-, hf'⟩ | rfl
  · rw [Workload.names, hf', Option.any_some] at hn
    rw [Workload.names, hf, Option.any_some]
    exact (editAt_authoritative hn).1
  · exact hn

/-- Nothing leads back from a cancellation. -/
theorem isCancelling_of_moves {s : WorkloadState} (hop : Governs op) (hm : w.Moves op s)
    (hw : isCancelling w.state = true) : isCancelling s = true ∨ isTerminal s = true := by
  have hedges : ∀ e ∈ kTransitionTable, isCancelling e.1 = true →
      isCancelling e.2 = true ∨ isTerminal e.2 = true ∨ e.2 = .completing := by decide
  have hadmits {t : WorkloadState} (ha : w.Admits t) (ht : isCancelling t = false)
      (ht' : isTerminal t = false) (hc : t ≠ .completing) : False := by
    rcases ha with heq | ⟨-, he, -⟩
    · rw [← heq, hw] at ht
      exact Bool.noConfusion ht
    · rcases hedges _ (mem_of_canTransition he) hw with h | h | h
      · exact Bool.false_ne_true (ht.symm.trans h)
      · exact Bool.false_ne_true (ht'.symm.trans h)
      · exact hc h
  have hother {t : WorkloadState} (hs : w.state = t) (ht : isCancelling t = false) : False := by
    rw [hs, ht] at hw
    exact Bool.noConfusion hw
  cases op with
  | transition =>
    obtain ⟨rfl, ha⟩ := hm
    obtain rfl : _ = WorkloadState.validating := hop
    exact (hadmits ha rfl rfl (by decide)).elim
  | settle =>
    have hawaits := settleTarget_awaits hm.1
    cases s <;> first
      | exact absurd hawaits (by decide)
      | exact (hadmits hm.2 rfl rfl (by decide)).elim
  | startEpisode => exact absurd hw (by rw [not_cancelling_of_eligible hm.2.2]; decide)
  | admitDispatch => exact (hother hm.2 rfl).elim
  | commitCompletion | completeCancellation =>
    rw [hm.1]
    exact .inr rfl
  | finalize => exact hop.elim
  | requestCancellationWorkloadScope =>
    rw [hm.1]
    exact .inl rfl
  | onWorkerLost => rcases hm.2 with hs | hs <;> exact (hother hs rfl).elim
  | planRestart | requestSuspend | requestMigration =>
    exact (hadmits hm.2 rfl rfl (by decide)).elim
  | completeSuspend | requestResume | commitMigration =>
    rcases hm.2 with hs | hs <;> exact (hother hs rfl).elim
  | _ => exact hm.elim

/-! ### Episodes that have ended -/

/-- The authoritative episode stands at `i`, and has completed. -/
structure EndedAt (w : Workload) (i : ℕ) (ep : Episode) : Prop where
  at_place : w.episodes[i]? = some ep
  authoritative : ep.authoritative = true
  completed : ep.completed = true

/-- Without a known total only the report of its end marks an episode completed; a completion
that is committed finds it so. -/
theorem completed_of_editAt (hunknown : w.progress.totalKind = .unknown) (hg : w.Granted op)
    {i : ℕ} (hop : ∀ id, op = .markEpisodeCompleted id → w.place id ≠ i) {e : Episode}
    (hi : w.episodes[i]? = some e) (hc : (w.editAt op i e).completed = true) :
    e.completed = true := by
  have hsplit {p : Prop} [Decidable p] {f : Episode → Episode}
      (hf : (f e).completed = e.completed) (h : (if p then f e else e).completed = true) :
      e.completed = true := by
    split at h
    · exact hf ▸ h
    · exact h
  cases op with
  | markEpisodeCompleted id =>
    rw [editAt, if_neg (hop id rfl)] at hc
    exact hc
  | commitCompletion =>
    rw [editAt] at hc
    split at hc
    case isFalse => exact hc
    case isTrue hp =>
      have hcriterion := hg.2.2.2
      rw [completionCriterion, currentEpisode_of_place hp hi] at hcriterion
      split at hcriterion
      · exact hcriterion
      · exact (Bool.and_eq_true_iff.mp hcriterion).1
      · rw [hunknown] at hcriterion
        exact absurd hcriterion (by simp)
      · exact absurd hcriterion (by decide)
  | startEpisode | commitMigration => exact hc
  | admitDispatch | reportProgress | onWorkerLost | markEpisodeFailed | completeSuspend =>
    exact hsplit rfl hc
  | _ => exact hc

/-- What has ended had done so before. -/
theorem EndedAt.of_step (hunknown : w.progress.totalKind = .unknown) (hs : Step w op o w')
    {i : ℕ} (hop : ∀ id, op = .markEpisodeCompleted id → w.place id ≠ i) {ep' : Episode}
    (h : w'.EndedAt i ep') : ∃ ep, w.EndedAt i ep ∧ ep.id = ep'.id := by
  rcases hs.granted_or with hg | ⟨-, rfl, -⟩
  case inr => exact ⟨ep', h, rfl⟩
  rcases Nat.lt_or_ge i w.episodes.length with hlt | hge
  · have hi := List.getElem?_eq_getElem hlt
    have hi' : w'.episodes[i]? = some (w.editAt op i (w.episodes[i])) := by
      rcases hs.episode_at hi with ⟨-, he⟩ | ⟨hn, -⟩
      · exact he
      · exact absurd hg hn
    obtain rfl := Option.some.inj (hi'.symm.trans h.at_place)
    exact ⟨_, ⟨hi, (editAt_authoritative h.authoritative).1,
      completed_of_editAt hunknown hg hop hi h.completed⟩, (editAt_id ..).symm⟩
  · obtain ⟨-, hnew⟩ := (hs.episode_new hg hge).mp h.at_place
    have hfresh : ep'.completed = false := by
      cases op with
      | startEpisode | commitMigration =>
        obtain rfl := Option.some.inj hnew
        rfl
      | _ => exact absurd hnew (by simp [newEpisode])
    exact absurd (hfresh.symm.trans h.completed) (by decide)

/-- A COMPLETED workload was completed by its authoritative episode. -/
def EndedWell (w : Workload) : Prop := w.state = .completed → ∃ i ep, w.EndedAt i ep

theorem EndedWell.step (h : w.EndedWell) (hauth : w.Authority)
    (hunknown : w.progress.totalKind = .unknown) (hs : Step w op o w') (hop : Governs op) :
    w'.EndedWell := by
  intro hw'
  rcases hs.state_cases with hst | ⟨rfl, hm⟩
  · -- COMPLETED before, so no new incarnation takes over
    have hw : w.state = .completed := hst.symm.trans hw'
    obtain ⟨i, ep, hend⟩ := h hw
    rcases hs.episode_at hend.at_place with ⟨hg, he⟩ | ⟨-, rfl, -⟩
    case inr => exact ⟨i, ep, hend⟩
    have hsplit {p : Prop} [Decidable p] {f : Episode → Episode}
        (ha : (f ep).authoritative = ep.authoritative)
        (hc : (f ep).completed = ep.completed ∨ (f ep).completed = true) :
        (if p then f ep else ep).authoritative = true ∧
          (if p then f ep else ep).completed = true := by
      split
      · exact ⟨ha.trans hend.authoritative, hc.elim (·.trans hend.completed) fun h => h⟩
      · exact ⟨hend.authoritative, hend.completed⟩
    suffices hkeep : (w.editAt op i ep).authoritative = true ∧
        (w.editAt op i ep).completed = true from ⟨i, _, he, hkeep.1, hkeep.2⟩
    cases op with
    | startEpisode => exact absurd hg.2 (by rw [hw]; decide)
    | commitMigration => rcases hg.2 with hs | hs <;> exact absurd (hw.symm.trans hs) (by decide)
    | admitDispatch | reportProgress | onWorkerLost | markEpisodeFailed | completeSuspend =>
      exact hsplit rfl (.inl rfl)
    | markEpisodeCompleted => exact hsplit rfl (.inr rfl)
    | commitCompletion => exact hsplit (f := fun e => { e with completed := true }) rfl (.inr rfl)
    | _ => exact ⟨hend.authoritative, hend.completed⟩
  · rw [hw'] at hm
    obtain ⟨g, rfl⟩ := (op_of_moves_to_end hop).1 hm
    have hcriterion := hs.granted.2.2.2
    obtain ⟨e, he⟩ : ∃ e, w.currentEpisode = some e := by
      rw [completionCriterion] at hcriterion
      rcases hcur : w.currentEpisode with _ | e
      · rw [hcur, hunknown] at hcriterion
        split at hcriterion <;> exact absurd hcriterion (by simp)
      · exact ⟨e, rfl⟩
    have hi := w.currentEpisode_eq_getElem?.symm.trans he
    rcases hs.episode_at hi with ⟨-, he'⟩ | ⟨-, -, ho⟩
    · have ha := authoritative_of_current hauth.soleLast he
      rw [editAt, if_pos rfl] at he'
      exact ⟨_, _, he', ha, rfl⟩
    · exact absurd rfl ho

end Workload

open Workload

/-! ### Taking reports -/

variable {w w' : Workload} {op : WorkloadOp} {o : Outcome} {id : ExecutionEpisodeId}

theorem Taking.names (h : Taking id w) : w.names id = true := by
  obtain ⟨ep, hf, -, ha⟩ := h.found
  rw [Workload.names, hf]
  exact ha

/-- **An episode that takes no reports takes none later.** -/
theorem Taking.of_step (h : Taking id w') (hs : Step w op o w') (hop : Governs op) {ep : Episode}
    (hf : w.findEpisode id = some ep) : Taking id w := by
  obtain ⟨ep', hf', hgen, ha⟩ := h.found
  rcases hs.found hf with ⟨-, hedit⟩ | rfl
  case inr => exact h
  obtain rfl := Option.some.inj (hedit.symm.trans hf')
  rw [editAt_generation] at hgen
  obtain ⟨hfinal', hcancelling'⟩ := Bool.or_eq_false_iff.mp h.cancelling
  have hfinal : w.cancelledFinal = false := by
    rcases hs.final_cases with hc | ⟨-, -, -, hc⟩
    · exact hc.symm.trans hfinal'
    · exact absurd (hc.symm.trans hfinal') (by decide)
  have hcancelling : isCancelling w.state = false := by
    rw [Bool.eq_false_iff]
    intro hc
    rcases hs.state_cases with heq | ⟨-, hm⟩
    · exact Bool.false_ne_true (hcancelling'.symm.trans (heq ▸ hc))
    · rcases isCancelling_of_moves hop hm hc with hc' | ht
      · exact Bool.false_ne_true (hcancelling'.symm.trans hc')
      · exact Bool.false_ne_true (h.terminal.symm.trans ht)
  have hterminal : isTerminal w.state = false := by
    rw [Bool.eq_false_iff]
    intro ht
    have ht' : isTerminal w'.state = true := by rw [hs.terminal ht, ht]
    exact Bool.false_ne_true (h.terminal.symm.trans ht')
  exact ⟨⟨ep, hf, hgen, (editAt_authoritative ha).1⟩,
    Bool.or_eq_false_iff.mpr ⟨hfinal, hcancelling⟩, hterminal⟩

/-! ### The accounts of a workload -/

/-- What an episode is dispatched under. -/
def Link.key (l : Link) : WorkloadId × ExecutionEpisodeId := (l.workload, l.episode)

/-- A report of the episode was refused. -/
def Refused (receipts : List Receipt) (id : WorkloadId) (episode : ExecutionEpisodeId) : Prop :=
  ∃ r ∈ receipts, r.workload = id ∧ r.episode = episode ∧ r.outcome ≠ .allow

theorem refused_append {receipts : List Receipt} {r : Receipt} {id : WorkloadId}
    {episode : ExecutionEpisodeId} :
    Refused (receipts ++ [r]) id episode ↔
      Refused receipts id episode ∨
        (r.workload = id ∧ r.episode = episode ∧ r.outcome ≠ .allow) := by
  constructor
  · rintro ⟨r', hr', h⟩
    rcases List.mem_append.mp hr' with hr' | hr'
    · exact .inl ⟨r', hr', h⟩
    · obtain rfl := List.mem_singleton.mp hr'
      exact .inr h
  · rintro (⟨r', hr', h⟩ | h)
    · exact ⟨r', List.mem_append_left _ hr', h⟩
    · exact ⟨r, by simp, h⟩

namespace Coordinator

/-- The links of a workload are leases on its work, and the receipts account for it. -/
structure Accounted (job : UInt64) (links : List Link) (receipts : List Receipt)
    (id : WorkloadId) (w : Workload) : Prop where
  authority : w.Authority
  unknown : w.progress.totalKind = .unknown
  endedWell : w.EndedWell
  counted : counted receipts id = List.range w.progress.completed.toNat
  within : w.progress.completed.toNat ≤ job.toNat
  /-- what was dispatched is not dispatched again -/
  dispatched : ∀ l ∈ links, l.workload = id →
    ∃ ep, w.findEpisode l.episode = some ep ∧ ¬ep.Dispatchable
  standing : ∀ l ∈ links, l.workload = id → ∃ next, Stretch noteOf job.toNat next l.inbox ∧
    Standing (w.names l.episode = true) (Taking l.episode w) (Refused receipts id l.episode)
      job.toNat w.progress.completed.toNat next
  linked : ∀ r ∈ receipts, r.workload = id → ∃ l ∈ links, l.workload = id ∧ l.episode = r.episode
  /-- the episode that has ended is found under its id, and its reports have told -/
  ended : ∀ i ep, w.EndedAt i ep → w.place ep.id = i ∧
    (w.progress.completed.toNat = job.toNat ↔ ¬Refused receipts id ep.id)

namespace Accounted

variable {job : UInt64} {links : List Link} {receipts : List Receipt} {id : WorkloadId}
  {w w' : Workload} {op : WorkloadOp} {o : Outcome}

/-- A workload that was just created has nothing to account for. -/
theorem create (hlinks : ∀ l ∈ links, l.workload ≠ id) (hreceipts : ∀ r ∈ receipts, r.workload ≠ id)
    (name intent : Text) (policy : Policy) :
    Accounted job links receipts id { Workload.create id name intent with policy := policy } where
  authority := by
    have hfence : Workload.Fencing (.setPolicy policy) := trivial
    exact (Workload.Authority.create id name intent).step hfence .setPolicy
  unknown := rfl
  endedWell h := absurd h (by simp [Workload.create])
  counted := by
    have hnone : receipts.filter (fun r => r.workload = id ∧ r.outcome = .allow) = [] :=
      List.filter_eq_nil_iff.mpr fun r hr => by simp [hreceipts r hr]
    rw [Coordinator.counted, hnone]
    rfl
  within := Nat.zero_le _
  dispatched l hl hid := absurd hid (hlinks l hl)
  standing l hl hid := absurd hid (hlinks l hl)
  linked r hr hid := absurd hid (hreceipts r hr)
  ended i ep h := absurd h.at_place (by simp [Workload.create])

/-- An episode that was dispatched goes on being found, and is not dispatched again. -/
theorem dispatched_step (h : Accounted job links receipts id w) (hs : Step w op o w') {l : Link}
    (hl : l ∈ links) (hid : l.workload = id) :
    ∃ ep, w'.findEpisode l.episode = some ep ∧ ¬ep.Dispatchable := by
  obtain ⟨ep, hf, hd⟩ := h.dispatched l hl hid
  rcases hs.found hf with ⟨hg, hf'⟩ | rfl
  case inr => exact ⟨ep, hf, hd⟩
  rw [findEpisode_eq_getElem?] at hf
  rcases editAt_worker hg hf with ⟨-, -, hd'⟩ | ⟨-, -, -, -, -, hd', -⟩
  · exact ⟨_, hf', fun h => hd (hd' h)⟩
  · exact absurd hd' hd

/-- What is asked of the workload besides moves no lease. -/
theorem step (h : Accounted job links receipts id w) (hs : Step w op o w') (hop : Governs op)
    (hfence : Fencing op) (hreport : ∀ e g d b, op ≠ .reportProgress e g d b)
    (hmark : ∀ e, op ≠ .markEpisodeCompleted e) : Accounted job links receipts id w' := by
  have hp : w'.progress = w.progress :=
    hs.progress_eq fun e g d b hr => hreport e g d b hr.1
  refine ⟨h.authority.step hfence hs, by rw [hp, h.unknown],
    h.endedWell.step h.authority h.unknown hs hop, by rw [hp, h.counted],
    by rw [hp]; exact h.within, fun l hl hid => h.dispatched_step hs hl hid, ?_, h.linked, ?_⟩
  · intro l hl hid
    obtain ⟨ep, hf, -⟩ := h.dispatched l hl hid
    obtain ⟨next, hinbox, hstanding⟩ := h.standing l hl hid
    rw [hp]
    exact ⟨next, hinbox, hstanding.mono (hs.names hf) fun ht => ht.of_step hs hop hf⟩
  · intro i ep' hend
    obtain ⟨ep, hend', hid⟩ := hend.of_step h.unknown hs fun e he => absurd he (hmark e)
    obtain ⟨hplace, hiff⟩ := h.ended i ep hend'
    rw [hp, ← hid, hs.place_eq (findEpisode_of_place hplace hend'.at_place)]
    exact ⟨hplace, hiff⟩

/-- An episode that the engine lets be dispatched is a new lease. -/
theorem dispatch (h : Accounted job links receipts id w) {l : Link} {worker : WorkerId}
    {boot : WorkerBootId} (hs : Step w (.admitDispatch l.episode worker boot) .allow w')
    (hid : l.workload = id)
    (hinbox : Stretch noteOf job.toNat w.progress.completed.toNat l.inbox) :
    l.key ∉ links.map Link.key ∧ Accounted job (links ++ [l]) receipts id w' := by
  obtain ⟨ep, hf, hd⟩ := hs.granted
  have hnew {l' : Link} (hl' : l' ∈ links) (hid' : l'.workload = id) : l'.episode ≠ l.episode := by
    intro he
    obtain ⟨ep', hf', hd'⟩ := h.dispatched l' hl' hid'
    rw [he] at hf'
    obtain rfl := Option.some.inj (hf'.symm.trans hf)
    exact hd' hd
  have hnone : ¬Refused receipts id l.episode := by
    rintro ⟨r, hr, hrid, he, -⟩
    obtain ⟨l', hl', hid', he'⟩ := h.linked r hr hrid
    exact hnew hl' hid' (he'.trans he)
  have hp : w'.progress = w.progress := hs.progress_eq fun _ _ _ _ hr => WorkloadOp.noConfusion hr.1
  have h' := h.step hs trivial trivial (fun _ _ _ _ => WorkloadOp.noConfusion)
    fun _ => WorkloadOp.noConfusion
  refine ⟨?_, { h' with dispatched := ?_, standing := ?_, linked := ?_ }⟩
  · rintro hmem
    obtain ⟨l', hl', hkey⟩ := List.mem_map.mp hmem
    obtain ⟨hw, he⟩ := Prod.mk.inj hkey
    exact hnew hl' (hw.trans hid) he
  · intro l' hl' hid'
    rcases List.mem_append.mp hl' with hl' | hl'
    · exact h'.dispatched l' hl' hid'
    · obtain rfl := List.mem_singleton.mp hl'
      rcases hs.found hf with ⟨-, hf'⟩ | rfl
      · rw [editAt, if_pos rfl] at hf'
        exact ⟨_, hf', Episode.not_dispatchable .running rfl (by decide)⟩
      · -- the dispatch has left its mark
        have hi := (w'.findEpisode_eq_getElem? l'.episode).symm.trans hf
        rcases hs.episode_at hi with ⟨-, he⟩ | ⟨-, -, ho⟩
        · rw [hi, editAt, if_pos rfl] at he
          refine ⟨ep, hf, Episode.not_dispatchable .running ?_ (by decide)⟩
          rw [Option.some.inj he]
          rfl
        · exact absurd rfl ho
  · intro l' hl' hid'
    rcases List.mem_append.mp hl' with hl' | hl'
    · exact h'.standing l' hl' hid'
    · obtain rfl := List.mem_singleton.mp hl'
      rw [hp]
      exact ⟨_, hinbox, .begin hnone⟩
  · intro r hr hrid
    obtain ⟨l', hl', hl⟩ := h'.linked r hr hrid
    exact ⟨l', List.mem_append_left _ hl', hl⟩

/-- Links that differ only in what is still to be read, of which the last may be lost. -/
theorem relink (h : Accounted job links receipts id w) {links' : List Link}
    (hlinks : ∀ l' ∈ links', l'.workload = id → ∃ l ∈ links, l.workload = id ∧
      l.episode = l'.episode ∧
      ∀ next, Stretch noteOf job.toNat next l.inbox → Stretch noteOf job.toNat next l'.inbox)
    (hkept : ∀ l ∈ links, l.workload = id → ∃ l' ∈ links', l'.key = l.key) :
    Accounted job links' receipts id w := by
  refine { h with dispatched := ?_, standing := ?_, linked := ?_ }
  · intro l' hl' hid
    obtain ⟨l, hl, hid', he, -⟩ := hlinks l' hl' hid
    rw [← he]
    exact h.dispatched l hl hid'
  · intro l' hl' hid
    obtain ⟨l, hl, hid', he, hinbox⟩ := hlinks l' hl' hid
    obtain ⟨next, hnext, hstanding⟩ := h.standing l hl hid'
    rw [← he]
    exact ⟨next, hinbox next hnext, hstanding⟩
  · intro r hr hrid
    obtain ⟨l, hl, hid, he⟩ := h.linked r hr hrid
    obtain ⟨l', hl', hkey⟩ := hkept l hl hid
    obtain ⟨hw, he'⟩ := Prod.mk.inj hkey
    exact ⟨l', hl', hw.trans hid, he'.trans he⟩

/-- The receipt of a report on another workload. -/
theorem other_receipt (h : Accounted job links receipts id w) {r : Receipt}
    (hr : r.workload ≠ id) : Accounted job links (receipts ++ [r]) id w := by
  have hrefused (e : ExecutionEpisodeId) :
      Refused (receipts ++ [r]) id e ↔ Refused receipts id e :=
    refused_append.trans (or_iff_left fun h => hr h.1)
  refine { h with counted := ?_, standing := ?_, linked := ?_, ended := ?_ }
  · rw [← h.counted, Coordinator.counted, Coordinator.counted, List.filter_append,
      List.filter_cons_of_neg (by simp [hr]), List.filter_nil, List.append_nil]
  · simpa only [hrefused] using h.standing
  · intro r' hr' hid
    rcases List.mem_append.mp hr' with hr' | hr'
    · exact h.linked r' hr' hid
    · obtain rfl := List.mem_singleton.mp hr'
      exact absurd hid hr
  · simpa only [hrefused] using h.ended

/-- Only one episode is named, whatever the ids. -/
theorem eq_of_names (h : Accounted job links receipts id w) {e e' : ExecutionEpisodeId}
    (he : w.names e = true) (he' : w.names e' = true) : e = e' := by
  obtain ⟨ep, hf, ha⟩ := (Option.any_eq_true ..).mp he
  obtain ⟨ep', hf', ha'⟩ := (Option.any_eq_true ..).mp he'
  have hi := (w.findEpisode_eq_getElem? e).symm.trans hf
  have hi' := (w.findEpisode_eq_getElem? e').symm.trans hf'
  have hplace := (authoritativeAt_of h.authority.soleLast hi ha).2 _ ep' hi' ha'
  rw [hplace] at hi'
  obtain rfl := Option.some.inj (hi.symm.trans hi')
  exact (id_of_found hf).symm.trans (id_of_found hf')

/-- A report that comes from a lease in step is granted. -/
theorem granted (h : Accounted job links receipts id w) {e : ExecutionEpisodeId}
    (ht : Taking e w) {delta : UInt64} (durable : Bool)
    (hle : w.progress.completed.toNat + delta.toNat ≤ job.toNat) :
    w.Granted (.reportProgress e (.fromU64 1) delta durable) := by
  obtain ⟨ep, hf, hgen, ha⟩ := ht.found
  have hbound := job.toNat_lt
  refine ⟨⟨ep, hf, hgen.symm, ha⟩, ht.cancelling, ht.terminal, ?_, ?_⟩
  · rintro ⟨hknown, -⟩
    exact absurd (h.unknown.symm.trans hknown) (by decide)
  · rw [Progress.advance, if_neg (by rw [Progress.advance_guard]; omega)]
    rfl

end Accounted

/-- What a link is dispatched under tells which one it is. -/
theorem eq_of_key {links : List Link} (hdistinct : (links.map Link.key).Nodup) {k j : ℕ}
    {l l' : Link} (hk : links[k]? = some l) (hj : links[j]? = some l') (hkey : l'.key = l.key) :
    k = j := by
  have hlt : k < (links.map Link.key).length := by
    rw [List.length_map]
    exact (List.getElem?_eq_some_iff.mp hk).1
  refine (List.getElem?_inj hlt hdistinct).mp ?_
  rw [List.getElem?_map, List.getElem?_map, hk, hj, Option.map_some, Option.map_some, hkey]

/-- A link that is read: it is at its place what is left of it, and the others are as they
were. -/
theorem mem_set_cases {links : List Link} (hdistinct : (links.map Link.key).Nodup) {k : ℕ}
    {l x l' : Link} (hk : links[k]? = some l) (h : l' ∈ links.set k x) :
    l' = x ∨ (l' ∈ links ∧ l'.key ≠ l.key) := by
  obtain ⟨j, hj⟩ := List.mem_iff_getElem?.mp h
  by_cases hjk : k = j
  · subst hjk
    rw [List.getElem?_set_self (List.getElem?_eq_some_iff.mp hk).1] at hj
    exact .inl (Option.some.inj hj).symm
  · rw [List.getElem?_set_ne hjk] at hj
    exact .inr ⟨List.mem_of_getElem? hj, fun hkey => hjk (eq_of_key hdistinct hk hj hkey)⟩

/-- Reading leaves the keys alone. -/
theorem map_key_set {links : List Link} {k : ℕ} {l : Link} (hk : links[k]? = some l)
    (inbox : List (Frame × List ℕ)) :
    (links.set k { l with inbox := inbox }).map Link.key = links.map Link.key := by
  rw [List.map_set]
  refine List.ext_getElem? fun j => ?_
  by_cases hjk : k = j
  · subst hjk
    have hlt := (List.getElem?_eq_some_iff.mp hk).1
    rw [List.getElem?_set_self (by rwa [List.length_map]), List.getElem?_map, hk]
    rfl
  · rw [List.getElem?_set_ne hjk]

theorem exists_of_map_key {links links' : List Link}
    (h : links'.map Link.key = links.map Link.key) {l : Link} (hl : l ∈ links) :
    ∃ l' ∈ links', l'.key = l.key := by
  have hmem : l.key ∈ links'.map Link.key := by
    rw [h]
    exact List.mem_map_of_mem hl
  exact List.mem_map.mp hmem

namespace Accounted

section Receive

variable {job : UInt64} {links : List Link} {receipts : List Receipt} {id : WorkloadId}
  {w w' : Workload} {o : Outcome} {k : ℕ} {l : Link} {f : Frame} {segments : List ℕ}
  {inbox : List (Frame × List ℕ)} {m : Message}

/-- A frame of another workload is read. -/
theorem other_link (h : Accounted job links receipts id w)
    (hdistinct : (links.map Link.key).Nodup) (hk : links[k]? = some l) (hid : l.workload ≠ id) :
    Accounted job (links.set k { l with inbox := inbox }) receipts id w := by
  refine h.relink (fun l' hl' hid' => ?_)
    fun l' hl' _ => exists_of_map_key (map_key_set hk inbox) hl'
  rcases mem_set_cases hdistinct hk hl' with rfl | ⟨hl', -⟩
  · exact absurd hid' hid
  · exact ⟨l', hl', hid', rfl, fun _ hnext => hnext⟩

/-- A frame that is no report is read. -/
theorem skip (h : Accounted job links receipts id w) (hdistinct : (links.map Link.key).Nodup)
    (hk : links[k]? = some l) (hinbox : l.inbox = (f, segments) :: inbox)
    (hnote : noteOf f = none) :
    Accounted job (links.set k { l with inbox := inbox }) receipts id w := by
  by_cases hid : l.workload = id
  case neg => exact h.other_link hdistinct hk hid
  obtain ⟨next, hnext, -⟩ := h.standing l (List.mem_of_getElem? hk) hid
  rw [hinbox] at hnext
  cases hnext with
  | piece hf => exact absurd (hnote.symm.trans hf) (by simp)
  | done hf => exact absurd (hnote.symm.trans hf) (by simp)

/-- The links that there were are there still. -/
theorem linked_set (h : Accounted job links receipts id w) (hk : links[k]? = some l) :
    ∀ r ∈ receipts, r.workload = id →
      ∃ l' ∈ links.set k { l with inbox := inbox }, l'.workload = id ∧ l'.episode = r.episode := by
  intro r hr hrid
  obtain ⟨l', hl', hid, he⟩ := h.linked r hr hrid
  obtain ⟨l'', hl'', hkey⟩ := exists_of_map_key (map_key_set hk inbox) hl'
  obtain ⟨hw, he'⟩ := Prod.mk.inj hkey
  exact ⟨l'', hl'', hw.trans hid, he'.trans he⟩

theorem linked_receive (h : Accounted job links receipts id w) (hk : links[k]? = some l)
    (hid : l.workload = id) :
    ∀ r ∈ receipts ++ [⟨id, l.episode, segments, o⟩], r.workload = id →
      ∃ l' ∈ links.set k { l with inbox := inbox }, l'.workload = id ∧ l'.episode = r.episode := by
  intro r hr hrid
  rcases List.mem_append.mp hr with hr | hr
  · exact h.linked_set hk r hr hrid
  · obtain rfl := List.mem_singleton.mp hr
    obtain ⟨l', hl', hkey⟩ :=
      exists_of_map_key (map_key_set hk inbox) (List.mem_of_getElem? hk)
    obtain ⟨hw, he⟩ := Prod.mk.inj hkey
    exact ⟨l', hl', hw.trans hid, he⟩

variable (h : Accounted job links receipts id w) (hdistinct : (links.map Link.key).Nodup)
  (hk : links[k]? = some l) (hid : l.workload = id) (hinbox : l.inbox = (f, segments) :: inbox)

include h hdistinct hk hid hinbox

omit hdistinct in
/-- What a report says, and how its lease stands. -/
theorem piece_of_report (hnote : noteOf f = some (.piece m.value.toNat)) : ∃ next,
    segments = List.range' next m.value.toNat ∧ 0 < m.value.toNat ∧
    next + m.value.toNat ≤ job.toNat ∧ Stretch noteOf job.toNat (next + m.value.toNat) inbox ∧
    Standing (w.names l.episode = true) (Taking l.episode w) (Refused receipts id l.episode)
      job.toNat w.progress.completed.toNat next := by
  obtain ⟨next, hnext, hstanding⟩ := h.standing l (List.mem_of_getElem? hk) hid
  rw [hinbox] at hnext
  cases hnext with
  | piece hf hn hle hrest =>
    obtain rfl := Note.piece.inj (Option.some.inj (hf.symm.trans hnote))
    exact ⟨next, rfl, hn, hle, hrest, hstanding⟩
  | done hf => exact absurd (hf.symm.trans hnote) (by simp)

theorem report_accepted (hnote : noteOf f = some (.piece m.value.toNat))
    (hs : Step w (.reportProgress l.episode (.fromU64 1) m.value m.flag1) .allow w') :
    Accounted job (links.set k { l with inbox := inbox })
      (receipts ++ [⟨id, l.episode, segments, .allow⟩]) id w' := by
  obtain ⟨next, rfl, hn, hle, hrest, hstanding⟩ := h.piece_of_report hk hid hinbox hnote
  have hl := List.mem_of_getElem? hk
  have ht : Taking l.episode w := by
    obtain ⟨⟨ep, hf, hgen, ha⟩, hcancelling, hterminal, -⟩ := hs.granted
    exact ⟨⟨ep, hf, hgen.symm, ha⟩, hcancelling, hterminal⟩
  obtain ⟨rfl, hnone⟩ := hstanding.eq_of_taken ht.names ht
  obtain ⟨hlt, hp⟩ := Progress.advance_eq_some hs.report.2
  have hcount : w'.progress.completed.toNat =
      w.progress.completed.toNat + m.value.toNat := by
    rw [hp, UInt64.toNat_add, Nat.mod_eq_of_lt hlt]
  have hrefused (e : ExecutionEpisodeId) :
      Refused (receipts ++ [⟨id, l.episode,
        List.range' w.progress.completed.toNat m.value.toNat, .allow⟩]) id e ↔
        Refused receipts id e :=
    refused_append.trans (or_iff_left fun hr => hr.2.2 rfl)
  have hfence : Fencing (.reportProgress l.episode (.fromU64 1) m.value m.flag1) := trivial
  have hheld := h.dispatched_step hs hl hid
  refine ⟨h.authority.step hfence hs, by rw [hp]; exact h.unknown,
    h.endedWell.step h.authority h.unknown hs trivial, ?_, by omega, ?_, ?_,
    h.linked_receive hk hid, ?_⟩
  · rw [Coordinator.counted, List.filter_append, List.filter_cons_of_pos (by simp),
      List.filter_nil, List.flatMap_append, List.flatMap_singleton, hcount, List.range_add]
    refine congrArg₂ (· ++ ·) h.counted ?_
    rw [List.range'_eq_map_range]
  · intro l' hl' hid'
    rcases mem_set_cases hdistinct hk hl' with rfl | ⟨hl', -⟩
    · exact hheld
    · exact h.dispatched_step hs hl' hid'
  · intro l' hl' hid'
    rw [hcount, hrefused]
    rcases mem_set_cases hdistinct hk hl' with rfl | ⟨hl', hkey⟩
    · exact ⟨_, hrest, hstanding.accept ht.names ht fun hr => hr⟩
    · -- another lease is not in force
      obtain ⟨ep', hf', -⟩ := h.dispatched l' hl' hid'
      obtain ⟨next', hnext', -⟩ := h.standing l' hl' hid'
      refine ⟨next', hnext', .idle fun hn' => hkey ?_⟩
      exact Prod.ext (hid'.trans hid.symm) (h.eq_of_names (hs.names hf' hn') ht.names)
  · intro i ep' hend
    obtain ⟨ep, hend', -⟩ := hend.of_step h.unknown hs fun _ he => WorkloadOp.noConfusion he
    obtain ⟨hplace, hiff⟩ := h.ended i ep hend'
    have hnames : w.names ep.id = true := by
      rw [names, findEpisode_of_place hplace hend'.at_place]
      exact hend'.authoritative
    rw [h.eq_of_names hnames ht.names] at hiff
    have hdone := hiff.mpr hnone
    omega

theorem report_refused (hnote : noteOf f = some (.piece m.value.toNat)) (ho : o ≠ .allow)
    (hs : Step w (.reportProgress l.episode (.fromU64 1) m.value m.flag1) o w') :
    Accounted job (links.set k { l with inbox := inbox })
      (receipts ++ [⟨id, l.episode, segments, o⟩]) id w' := by
  obtain ⟨next, rfl, hn, hle, hrest, hstanding⟩ := h.piece_of_report hk hid hinbox hnote
  have hl := List.mem_of_getElem? hk
  obtain rfl : w' = w := by
    rcases hs.granted_or with hg | ⟨-, hw, -⟩
    · exact absurd (hs.progress_iff.mpr hg) ho
    · exact hw
  have hnot : ¬Taking l.episode w' := by
    intro ht
    obtain ⟨rfl, -⟩ := hstanding.eq_of_taken ht.names ht
    exact ho (hs.progress_iff.mpr (h.granted ht m.flag1 hle))
  refine { h with counted := ?_, dispatched := ?_, standing := ?_,
                  linked := h.linked_receive hk hid, ended := ?_ }
  · rw [Coordinator.counted, List.filter_append, List.filter_cons_of_neg (by simp [ho]),
      List.filter_nil, List.append_nil]
    exact h.counted
  · intro l' hl' hid'
    rcases mem_set_cases hdistinct hk hl' with rfl | ⟨hl', -⟩
    · exact h.dispatched l hl hid
    · exact h.dispatched l' hl' hid'
  · intro l' hl' hid'
    rcases mem_set_cases hdistinct hk hl' with rfl | ⟨hl', hkey⟩
    · exact ⟨_, hrest, hstanding.refuse hn hle (refused_append.mpr (.inr ⟨rfl, rfl, ho⟩)) hnot⟩
    · have hne : l.episode ≠ l'.episode :=
        fun he => hkey (Prod.ext (hid'.trans hid.symm) he.symm)
      rw [refused_append, or_iff_left fun hr => hne hr.2.1]
      exact h.standing l' hl' hid'
  · intro i ep hend
    obtain ⟨hplace, hiff⟩ := h.ended i ep hend
    refine ⟨hplace, ?_⟩
    rw [refused_append, hiff, not_or, iff_self_and]
    rintro hnone ⟨-, he, -⟩
    have hnames : w'.names l.episode = true := by
      rw [show l.episode = ep.id from he, names, findEpisode_of_place hplace hend.at_place]
      exact hend.authoritative
    -- the work was all counted, and there is something to refuse
    have hdone := hiff.mpr hnone
    rcases hstanding hnames with ⟨rfl, -⟩ | ⟨hlt, -⟩ <;> omega

/-- **A report is counted where the count stands, or refused for good.** -/
theorem report (hnote : noteOf f = some (.piece m.value.toNat))
    (hs : Step w (.reportProgress l.episode (.fromU64 1) m.value m.flag1) o w') :
    Accounted job (links.set k { l with inbox := inbox })
      (receipts ++ [⟨id, l.episode, segments, o⟩]) id w' := by
  by_cases ho : o = .allow
  · subst ho
    exact h.report_accepted hdistinct hk hid hinbox hnote hs
  · exact h.report_refused hdistinct hk hid hinbox hnote ho hs

/-- **An end is believed**: its episode has completed, and its reports have told. -/
theorem finish (hnote : noteOf f = some .done)
    (hs : Step w (.markEpisodeCompleted l.episode) o w') :
    Accounted job (links.set k { l with inbox := inbox }) receipts id w' := by
  have hl := List.mem_of_getElem? hk
  obtain ⟨next, hnext, hstanding⟩ := h.standing l hl hid
  obtain ⟨ep, hf, hd⟩ := h.dispatched l hl hid
  rw [hinbox] at hnext
  obtain ⟨rfl, rfl⟩ : next = job.toNat ∧ inbox = [] := by
    cases hnext with
    | piece hf' => exact absurd (hf'.symm.trans hnote) (by simp)
    | done => exact ⟨rfl, rfl⟩
  have hp : w'.progress = w.progress := hs.progress_eq fun _ _ _ _ hr => WorkloadOp.noConfusion hr.1
  have hfence : Fencing (.markEpisodeCompleted l.episode) := trivial
  have hheld := h.dispatched_step hs hl hid
  refine ⟨h.authority.step hfence hs, by rw [hp]; exact h.unknown,
    h.endedWell.step h.authority h.unknown hs trivial, by rw [hp]; exact h.counted,
    by rw [hp]; exact h.within, ?_, ?_, h.linked_set hk, ?_⟩
  · intro l' hl' hid'
    rcases mem_set_cases hdistinct hk hl' with rfl | ⟨hl', -⟩
    · exact hheld
    · exact h.dispatched_step hs hl' hid'
  · intro l' hl' hid'
    rw [hp]
    rcases mem_set_cases hdistinct hk hl' with rfl | ⟨hl', -⟩
    · exact ⟨_, .broken, hstanding.mono (hs.names hf) fun ht => ht.of_step hs trivial hf⟩
    · obtain ⟨ep', hf', -⟩ := h.dispatched l' hl' hid'
      obtain ⟨next', hnext', hstanding'⟩ := h.standing l' hl' hid'
      exact ⟨next', hnext', hstanding'.mono (hs.names hf') fun ht => ht.of_step hs trivial hf'⟩
  · intro i ep' hend
    rw [hp]
    by_cases hplace : w.place l.episode = i
    · -- the episode whose end it is
      have hi : w.episodes[i]? = some ep := by
        rw [← hplace, ← findEpisode_eq_getElem?, hf]
      have hi' : w'.episodes[i]? = some (completeEpisode ep) := by
        rcases hs.episode_at hi with ⟨-, he⟩ | ⟨hn, -⟩
        · rwa [editAt, if_pos hplace] at he
        · exact absurd ⟨ep, hf⟩ hn
      obtain rfl := Option.some.inj (hi'.symm.trans hend.at_place)
      have hnames : w.names l.episode = true := by
        rw [names, hf]
        exact hend.authoritative
      have hid' : (completeEpisode ep).id = l.episode := show ep.id = _ from id_of_found hf
      rw [hid', hs.place_eq hf]
      exact ⟨hplace, hstanding.count_eq_iff hnames⟩
    · obtain ⟨ep, hend', hid'⟩ := hend.of_step h.unknown hs fun e he => by
        rwa [← WorkloadOp.markEpisodeCompleted.inj he]
      obtain ⟨hplace', hiff⟩ := h.ended i ep hend'
      rw [← hid', hs.place_eq (findEpisode_of_place hplace' hend'.at_place)]
      exact ⟨hplace', hiff⟩

end Receive

end Accounted

/-! ### The accounts of a coordinator -/

variable {σ : Type} [StateStore σ]

/-- No episode is dispatched twice, and the work of every workload is accounted for. -/
structure Sound (jobs : WorkloadId → UInt64) (s : Coordinator σ) : Prop where
  distinct : (s.links.map Link.key).Nodup
  registered : ∀ id w, s.engine.get id = some w →
    Accounted (jobs id) s.links s.receipts id w
  unregistered : ∀ id, s.engine.get id = none →
    (∀ l ∈ s.links, l.workload ≠ id) ∧ ∀ r ∈ s.receipts, r.workload ≠ id

/-- A command is neither a report nor an end. -/
theorem operation_of_isCommand {id : WorkloadId} {r : Request} (h : EngineCall.IsCommand (.on id r))
    (counter : UInt64) (w : Workload) :
    (∀ e g d b, r.operation counter w ≠ .reportProgress e g d b) ∧
      ∀ e, r.operation counter w ≠ .markEpisodeCompleted e := by
  cases r <;> first
    | exact h.elim
    | exact ⟨fun _ _ _ _ => WorkloadOp.noConfusion, fun _ => WorkloadOp.noConfusion⟩

/-- A worker is dispatched to if the engine admits it. -/
theorem dispatch_eq (jobs : WorkloadId → UInt64) (s : Coordinator σ) (a : Assignment) :
    s.dispatch jobs a =
      if isAllow (s.engine.step (.on a.workload a.request)).1.outcome then
        { s with
          engine := (s.engine.step (.on a.workload a.request)).2
          links := s.links ++
            [a.link a.register (jobs a.workload) (s.engine.snapshot a.workload)] }
      else { s with engine := (s.engine.step (.on a.workload a.request)).2 } := by
  rw [Coordinator.dispatch, registerWorker_hello]
  rfl

namespace Sound

variable {jobs : WorkloadId → UInt64} {s : Coordinator σ}

theorem command (h : Sound jobs s) {c : EngineCall} (hc : c.IsCommand) :
    Sound jobs { s with engine := (s.engine.step c).2 } := by
  refine ⟨h.distinct, fun id w' hget => ?_, fun id hget => ?_⟩
  · rcases hw : s.engine.get id with _ | w
    · obtain ⟨hlinks, hreceipts⟩ := h.unregistered id hw
      rcases s.engine.step_get_none hw c with hnone | ⟨name, intent, policy, -, hnew⟩
      · exact absurd (hnone.symm.trans hget) (by simp)
      · obtain rfl := Option.some.inj (hnew.symm.trans hget)
        exact .create hlinks hreceipts name intent policy
    · have hacc := h.registered id w hw
      rcases s.engine.step_get_cases hw c with ⟨-, hsame⟩ | ⟨r, w'', rfl, hnew, hs⟩
      · obtain rfl := Option.some.inj (hsame.symm.trans hget)
        exact hacc
      · obtain rfl := Option.some.inj (hnew.symm.trans hget)
        obtain ⟨hreport, hmark⟩ := operation_of_isCommand hc s.engine.episodeCounter w
        exact hacc.step hs (r.governs _ w) (r.fencing _ w) hreport hmark
  · rcases hw : s.engine.get id with _ | w
    · exact h.unregistered id hw
    · rcases s.engine.step_get_cases hw c with ⟨-, hsame⟩ | ⟨_, _, _, hnew, _⟩
      · exact absurd (hsame.symm.trans hget) (by simp)
      · exact absurd (hnew.symm.trans hget) (by simp)

theorem dispatch (h : Sound jobs s) (a : Assignment) : Sound jobs (s.dispatch jobs a) := by
  have hcommand := h.command (c := .on a.workload a.request) trivial
  rw [dispatch_eq]
  by_cases ho : (s.engine.step (.on a.workload a.request)).1.outcome = .allow
  case neg => rwa [if_neg (mt (isAllow_iff _).mp ho)]
  rw [if_pos ((isAllow_iff _).mpr ho)]
  rcases hw : s.engine.get a.workload with _ | w
  · rw [s.engine.step_on_none hw a.request] at ho
    exact absurd ho (by simp)
  have hsnapshot : s.engine.snapshot a.workload = w := by
    rw [WorkloadEngine.snapshot, hw]
    rfl
  rw [hsnapshot]
  obtain ⟨w', hw', hs⟩ := s.engine.step_on_step hw a.request
  rw [ho] at hs
  have hreg : decodeMessage (encodeMessage a.register) = .ok a.register :=
    decodeMessage_short (Nat.zero_le _)
  obtain ⟨hfresh, hnew⟩ := (h.registered _ _ hw).dispatch
    (l := a.link a.register (jobs a.workload) w) hs rfl (Assignment.stretch_inbox hreg)
  refine ⟨?_, fun id v hv => ?_, fun id hnone => ?_⟩
  · rw [List.map_append, List.map_singleton, List.nodup_append_comm]
    exact List.nodup_cons.mpr ⟨hfresh, h.distinct⟩
  · by_cases hid : a.workload = id
    · subst hid
      obtain rfl := Option.some.inj (hw'.symm.trans hv)
      exact hnew
    · refine (hcommand.registered id v hv).relink (fun l hl hlid => ?_) fun l hl _ =>
        ⟨l, List.mem_append_left _ hl, rfl⟩
      rcases List.mem_append.mp hl with hl | hl
      · exact ⟨l, hl, hlid, rfl, fun _ hnext => hnext⟩
      · obtain rfl := List.mem_singleton.mp hl
        exact absurd hlid hid
  · obtain ⟨hlinks, hreceipts⟩ := hcommand.unregistered id hnone
    refine ⟨fun l hl => ?_, hreceipts⟩
    rcases List.mem_append.mp hl with hl | hl
    · exact hlinks l hl
    · obtain rfl := List.mem_singleton.mp hl
      rintro rfl
      exact absurd (hw'.symm.trans hnone) (by simp)

omit [StateStore σ] in
/-- Reading a frame that says nothing to the engine. -/
theorem skip (h : Sound jobs s) {k : ℕ} {l : Link} {f : Frame} {segments : List ℕ}
    {inbox : List (Frame × List ℕ)} (hk : s.links[k]? = some l)
    (hinbox : l.inbox = (f, segments) :: inbox) (hnote : noteOf f = none) :
    Sound jobs { s with links := s.links.set k { l with inbox := inbox } } := by
  refine ⟨?_, fun id w hw => (h.registered id w hw).skip h.distinct hk hinbox hnote,
    fun id hnone => ?_⟩
  · rw [map_key_set hk]
    exact h.distinct
  · obtain ⟨hlinks, hreceipts⟩ := h.unregistered id hnone
    refine ⟨fun l' hl' => ?_, hreceipts⟩
    rcases mem_set_cases h.distinct hk hl' with rfl | ⟨hl', -⟩
    · exact hlinks l (List.mem_of_getElem? hk)
    · exact hlinks l' hl'

/-- A frame makes the coordinator ask something of its workload, with these receipts. -/
theorem asks (h : Sound jobs s) {k : ℕ} {l : Link} {inbox : List (Frame × List ℕ)}
    (hk : s.links[k]? = some l) (r : Request) {receipts : List Receipt}
    (hreceipts : ∀ r' ∈ receipts, r'.workload = l.workload)
    (hother : ∀ id w, id ≠ l.workload → s.engine.get id = some w →
      Accounted (jobs id) (s.links.set k { l with inbox := inbox }) (s.receipts ++ receipts) id w)
    (hown : ∀ w w', s.engine.get l.workload = some w →
      w.Step (r.operation s.engine.episodeCounter w)
        (s.engine.step (.on l.workload r)).1.outcome w' →
      Accounted (jobs l.workload) (s.links.set k { l with inbox := inbox })
        (s.receipts ++ receipts) l.workload w') :
    Sound jobs
      { engine := (s.engine.step (.on l.workload r)).2
        links := s.links.set k { l with inbox := inbox }
        receipts := s.receipts ++ receipts } := by
  have hl := List.mem_of_getElem? hk
  obtain ⟨w, hw⟩ : ∃ w, s.engine.get l.workload = some w := by
    rcases hw : s.engine.get l.workload with _ | w
    · exact absurd rfl ((h.unregistered _ hw).1 l hl)
    · exact ⟨w, rfl⟩
  obtain ⟨w', hw', hs⟩ := s.engine.step_on_step hw r
  refine ⟨?_, fun id v hv => ?_, fun id hnone => ?_⟩
  · rw [map_key_set hk]
    exact h.distinct
  · by_cases hid : l.workload = id
    · subst hid
      obtain rfl := Option.some.inj (hw'.symm.trans hv)
      exact hown w w' hw hs
    · dsimp only at hv
      rw [(s.engine.step_on_some hw r).2.2 id, if_neg hid] at hv
      exact hother id v (Ne.symm hid) hv
  · dsimp only at hnone
    rw [(s.engine.step_on_some hw r).2.2 id] at hnone
    by_cases hid : l.workload = id
    · rw [if_pos hid] at hnone
      exact absurd hnone (by simp)
    · rw [if_neg hid] at hnone
      obtain ⟨hlinks, hold⟩ := h.unregistered id hnone
      refine ⟨fun l' hl' => ?_, fun r' hr' => ?_⟩
      · rcases mem_set_cases h.distinct hk hl' with rfl | ⟨hl', -⟩
        · exact hid
        · exact hlinks l' hl'
      · rcases List.mem_append.mp hr' with hr' | hr'
        · exact hold r' hr'
        · rw [hreceipts r' hr']
          exact hid

theorem receive (h : Sound jobs s) (k : ℕ) : Sound jobs (s.receive k) := by
  rw [Coordinator.receive]
  rcases hk : s.links[k]? with _ | l
  · exact h
  dsimp only
  rcases hinbox : l.inbox with _ | ⟨⟨f, segments⟩, inbox⟩
  · exact h
  dsimp only
  have hskip (hnote : noteOf f = none) := h.skip hk hinbox hnote
  rcases hread : readMsg f with e | _ | m
  · exact hskip (by rw [noteOf, hread])
  · exact hskip (by rw [noteOf, hread])
  dsimp only
  rw [handle]
  cases htype : m.type with
  | progress =>
    have hnote : noteOf f = some (.piece m.value.toNat) := by
      rw [noteOf, hread]
      dsimp only
      rw [htype]
    refine h.asks hk (.progress l.episode (.fromU64 1) m.value m.flag1) ?_ ?_ ?_
    · intro r' hr'
      rw [List.mem_singleton.mp hr']
    · intro id w hid hw
      exact ((h.registered id w hw).other_link h.distinct hk (Ne.symm hid)).other_receipt
        (Ne.symm hid)
    · intro w w' hw hs
      exact (h.registered _ w hw).report h.distinct hk rfl hinbox hnote hs
  | complete =>
    have hnote : noteOf f = some .done := by
      rw [noteOf, hread]
      dsimp only
      rw [htype]
    rw [← List.append_nil s.receipts]
    refine h.asks hk (.episodeCompleted l.episode) (by simp) ?_ ?_
    · intro id w hid hw
      rw [List.append_nil]
      exact (h.registered id w hw).other_link h.distinct hk (Ne.symm hid)
    · intro w w' hw hs
      rw [List.append_nil]
      exact (h.registered _ w hw).finish h.distinct hk rfl hinbox hnote hs
  | _ =>
    refine hskip ?_
    rw [noteOf, hread]
    dsimp only
    rw [htype]

omit [StateStore σ] in
theorem kill (h : Sound jobs s) (k arriving : ℕ) :
    Sound jobs { s with links := s.links.modify k fun l => l.lose arriving } := by
  have hkeys : (s.links.modify k fun l => l.lose arriving).map Link.key =
      s.links.map Link.key := by
    refine List.ext_getElem? fun j => ?_
    rw [List.getElem?_map, List.getElem?_map, List.getElem?_modify]
    rcases s.links[j]? with _ | l
    · rfl
    · by_cases hjk : k = j <;> simp [hjk, Link.key, Link.lose]
  have hold {l' : Link} (hl' : l' ∈ s.links.modify k fun l => l.lose arriving) :
      ∃ l ∈ s.links, l.key = l'.key ∧ ∃ n, l'.inbox = l.inbox.take n := by
    obtain ⟨j, hj⟩ := List.mem_iff_getElem?.mp hl'
    rw [List.getElem?_modify] at hj
    rcases hl : s.links[j]? with _ | l
    · rw [hl] at hj
      exact absurd hj (by simp)
    rw [hl, Option.map_eq_map, Option.map_some] at hj
    obtain rfl := Option.some.inj hj
    refine ⟨l, List.mem_of_getElem? hl, ?_⟩
    split
    · exact ⟨rfl, arriving, rfl⟩
    · exact ⟨rfl, l.inbox.length, List.take_length.symm⟩
  refine ⟨by rw [hkeys]; exact h.distinct, fun id w hw => ?_, fun id hnone => ?_⟩
  · refine (h.registered id w hw).relink (fun l' hl' hid => ?_) fun l hl _ =>
      exists_of_map_key hkeys hl
    obtain ⟨l, hl, hkey, n, hinbox⟩ := hold hl'
    obtain ⟨hw, he⟩ := Prod.mk.inj hkey
    rw [hinbox]
    exact ⟨l, hl, hw.trans hid, he, fun _ hnext => hnext.take n⟩
  · obtain ⟨hlinks, hreceipts⟩ := h.unregistered id hnone
    refine ⟨fun l' hl' => ?_, hreceipts⟩
    obtain ⟨l, hl, hkey, -⟩ := hold hl'
    rw [← (Prod.mk.inj hkey).1]
    exact hlinks l hl

theorem step (h : Sound jobs s) (a : CoordinatorAction) : Sound jobs (s.step jobs a) := by
  cases a with
  | command c => exact h.command c.2
  | dispatch a => exact h.dispatch a
  | receive k => exact h.receive k
  | kill k arriving => exact h.kill k arriving

end Sound

theorem sound_run (jobs : WorkloadId → UInt64) (store : Option σ)
    (actions : List CoordinatorAction) : Sound jobs ((ofStore store).run jobs actions) := by
  refine List.foldlRecOn (motive := Sound jobs) actions _ ?_ fun s hs a _ => hs.step a
  refine ⟨List.nodup_nil, fun id w hw => ?_, fun id _ => ⟨by simp [ofStore], by simp [ofStore]⟩⟩
  exact absurd hw (by simp [ofStore, WorkloadEngine.ofStore, WorkloadEngine.get])

/-- **Exactly once.**  Whatever the coordinator does and in whatever order the frames of its
workers arrive or are lost, the segments counted for a workload are those from 0 up to its
completed work, each once and in order, and none beyond the total; and where the workload is
COMPLETED, its total is reached exactly when every report of its last episode was accepted.
Reports and ends reach the engine from the frames of workers only. -/
theorem exactly_once (jobs : WorkloadId → UInt64) (store : Option σ)
    (actions : List CoordinatorAction) (id : WorkloadId) (w : Workload)
    (hw : ((ofStore store).run jobs actions).engine.get id = some w) :
    counted ((ofStore store).run jobs actions).receipts id =
        List.range w.progress.completed.toNat ∧
      w.progress.completed ≤ jobs id ∧
      (w.state = .completed → ∃ ep, w.currentEpisode = some ep ∧
        (w.progress.completed = jobs id ↔
          ∀ r ∈ ((ofStore store).run jobs actions).receipts, r.workload = id →
            r.episode = ep.id → r.outcome = .allow)) := by
  have h := (sound_run jobs store actions).registered id w hw
  refine ⟨h.counted, UInt64.le_iff_toNat_le.mpr h.within, fun hcompleted => ?_⟩
  obtain ⟨i, ep, hend⟩ := h.endedWell hcompleted
  obtain ⟨-, hiff⟩ := h.ended i ep hend
  have hcurrent := currentEpisode_of_place
    (h.authority.currentPlace_eq hend.at_place hend.authoritative) hend.at_place
  refine ⟨ep, hcurrent, ?_⟩
  rw [← UInt64.toNat_inj, hiff]
  simp only [Refused, not_exists, not_and, not_not]

/-- Work of 32 units in chunks of 8: the first worker is given up as lost behind its second
report, while its third is still under way and is read among those of the second worker, which
resumes at 16. -/
def primaryScenario : List CoordinatorAction :=
  let id : WorkloadId := .fromU64 1
  let first : Worker := ⟨fun segment _ => segment, .fromU64 1, .fromU64 1⟩
  let second : Worker := ⟨fun segment _ => segment, .fromU64 2, .fromU64 2⟩
  let policy : Policy := { restart := { kind := .alwaysWithLimit, maxRestarts := 2 } }
  [.command ⟨.create id (text "W") (text "compute") policy, trivial⟩,
    .command ⟨.on id .validate, trivial⟩, .command ⟨.on id (.applyGrant {}), trivial⟩,
    .command ⟨.on id .settle, trivial⟩,
    .command ⟨.on id (.startEpisode (.fromU64 1) (.fromU64 1)), trivial⟩,
    .dispatch ⟨id, .fromU64 1000, first, 8, text "job-A"⟩, .receive 0, .receive 0, .kill 0 1,
    .command ⟨.on id (.onWorkerLost (.fromU64 1) (.fromU64 1) (.fromU64 2)), trivial⟩,
    .command ⟨.on id (.planRestart (text "WORKER_LOSS") (.fromU64 2)), trivial⟩,
    .command ⟨.on id (.startEpisode (.fromU64 2) (.fromU64 1)), trivial⟩,
    .dispatch ⟨id, .fromU64 1001, second, 8, text "job-B"⟩, .receive 1, .receive 0, .receive 1,
    .receive 1, .command ⟨.on id (.commitCompletion (.fromU64 3)), trivial⟩]

theorem exactly_once_primary : ∃ w,
    ((ofStore (none : Option (MemoryStateStore .leftToRight))).run (fun _ => 32)
      primaryScenario).engine.get (.fromU64 1) = some w ∧
    w.state = .completed ∧ w.progress.completed = 32 ∧
    counted ((ofStore (none : Option (MemoryStateStore .leftToRight))).run (fun _ => 32)
      primaryScenario).receipts (.fromU64 1) = List.range 32 := by
  have hrun : (((ofStore (none : Option (MemoryStateStore .leftToRight))).run (fun _ => 32)
      primaryScenario).engine.get (.fromU64 1)).map (fun w => (w.state, w.progress.completed)) =
        some (.completed, 32) := by decide +kernel
  obtain ⟨w, hw, hlast⟩ := Option.map_eq_some_iff.mp hrun
  obtain ⟨hstate, hcompleted⟩ := Prod.mk.inj hlast
  obtain ⟨hcounted, -⟩ := exactly_once (fun _ => 32) none primaryScenario (.fromU64 1) w hw
  rw [hcompleted] at hcounted
  exact ⟨w, hw, hstate, hcompleted, hcounted⟩

end Coordinator

end WorkloadFabric
