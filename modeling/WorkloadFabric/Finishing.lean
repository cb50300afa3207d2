/-
What one worker comes to with the work that is left.

Whatever became of the work before, the coordinator starts an episode and dispatches it.  From
then on everything may go on in any order: other workloads and workers, late reports of the
workers that this workload had before, requests on it that a running workload refuses; only
this worker is not killed, and nobody takes the workload from it.  Reports and ends are read in
the frames of workers, and made by nobody else.

* **`worker_finishes`** — the work has then come as far as the reports of this worker that were
  read, chunk by chunk; and the commit completes the workload exactly if its policy asks for a
  single result, no cancellation stands before it, and all of them were read.
-/
import WorkloadFabric.ExactlyOnce
import WorkloadFabric.Races
import WorkloadFabric.Interruptions

namespace WorkloadFabric

open Leases

/-- The request neither takes a running workload from its worker nor ends it. -/
def Request.undisturbing : Request → Bool
  | .cancel _ | .completeCancellation _ | .commitCompletion _ => false
  | r => r.contends

namespace Workload

/-! ### At work -/

/-- The end of the current episode has been reported. -/
def told (w : Workload) : Bool := w.currentEpisode.any (·.completed)

theorem names_of_keys {w w' : Workload} (h : w'.keys = w.keys) (id : ExecutionEpisodeId) :
    w'.names id = w.names id := by
  have hkeys (w : Workload) : w.names id = (w.keys.find? (·.1 == id)).any (·.2) := by
    rw [names, findEpisode, keys, List.find?_map, Option.any_map]
    rfl
  rw [hkeys, hkeys, h]

/-- The workload has been running since `w`, and takes the reports of the episode. -/
structure Working (w : Workload) (episode : ExecutionEpisodeId) (rs : List Request)
    (w' : Workload) : Prop where
  race : w.RaceOpen rs w'
  quiet : ∀ r ∈ rs, r.undisturbing = true
  taking : Taking episode w'

namespace Working

variable {w w' w'' : Workload} {episode : ExecutionEpisodeId} {rs : List Request} {r : Request}
  {counter : UInt64} {o : Outcome}

theorem not_cancel (h : Working w episode rs w') (g : WorkloadGeneration) : .cancel g ∉ rs :=
  fun hr => Bool.false_ne_true (h.quiet _ hr)

theorem running (h : Working w episode rs w') : w'.state = .running :=
  h.race.state.trans (if_neg (h.not_cancel _))

/-- Where the episode stands is where the current one does. -/
theorem namesCurrent_iff (h : Working w episode rs w') (ha : w'.Authority)
    {id : ExecutionEpisodeId} : w'.namesCurrent id = true ↔ id = episode := by
  obtain ⟨ep, hf, -, hauth⟩ := h.taking.found
  have hi := (w'.findEpisode_eq_getElem? episode).symm.trans hf
  have hcur := ha.currentPlace_eq hi hauth
  have hsome : w'.currentEpisode.isSome = true := by
    rw [currentEpisode_of_place hcur hi]
    rfl
  rw [namesCurrent, hsome, Bool.true_and, beq_iff_eq, hcur]
  refine ⟨fun hplace => ?_, fun heq => by rw [heq]⟩
  rw [← hplace, ← findEpisode_eq_getElem?] at hi
  exact (id_of_found hi).symm.trans (id_of_found hf)

/-- **It goes on working**, whatever undisturbing is asked of it. -/
theorem step (h : Working w episode rs w') (hr : r.undisturbing = true)
    (hs : Step w' (r.operation counter w') o w'') :
    Working w episode (rs ++ [r]) w'' ∧
      w''.told = (w'.told || w'.marksCurrent (r.operation counter w')) := by
  have hcontends : r.contends = true := by
    cases r <;> first | rfl | exact absurd hr Bool.false_ne_true
  have hv : w.verdict rs r = none := by
    cases r <;> first | rfl | exact absurd hr Bool.false_ne_true
  have hfinal : ∀ g, r.operation counter w' ≠ .completeCancellation g := by
    rintro g hop
    cases r <;> first | exact WorkloadOp.noConfusion hop | exact absurd hr Bool.false_ne_true
  have hcommit : ∀ g, r.operation counter w' ≠ .commitCompletion g := by
    rintro g hop
    cases r <;> first | exact WorkloadOp.noConfusion hop | exact absurd hr Bool.false_ne_true
  have hrace := h.race.undecided hs hcontends hv
  have hkeys : w''.keys = w'.keys := hrace.keys.trans h.race.keys.symm
  have hquiet : ∀ r' ∈ rs ++ [r], r'.undisturbing = true := by
    intro r' hr'
    rcases List.mem_append.mp hr' with hr' | hr'
    · exact h.quiet r' hr'
    · rw [List.mem_singleton.mp hr']
      exact hr
  have hstate : w''.state = .running :=
    hrace.state.trans (if_neg fun hc => Bool.false_ne_true (hquiet (.cancel _) hc))
  obtain ⟨hnotfinal, -⟩ := Bool.or_eq_false_iff.mp h.taking.cancelling
  refine ⟨⟨hrace, hquiet, ?_, ?_, ?_⟩,
    hs.current_completed hkeys fun g hop => absurd hop (hcommit g)⟩
  · obtain ⟨ep, hf, hgen, ha⟩ := h.taking.found
    rcases hs.found hf with ⟨-, hf'⟩ | rfl
    · refine ⟨_, hf', (editAt_generation ..).trans hgen, ?_⟩
      have hnames := (names_of_keys hkeys episode).trans h.taking.names
      rwa [names, hf', Option.any_some] at hnames
    · exact ⟨ep, hf, hgen, ha⟩
  · rw [hs.final_eq hfinal, hnotfinal, hstate]
    rfl
  · rw [hstate]
    rfl

end Working

/-- What comes of a commit. -/
theorem Working.commit {w w' w'' : Workload} {episode : ExecutionEpisodeId} {rs : List Request}
    {o : Outcome} (h : Working w episode rs w')
    (hs : Step w' (.commitCompletion w.generation) o w'') :
    w''.progress = w'.progress ∧ w''.state =
      if w.policy.completion.kind = .singleResult ∧
          ¬(w.cancellationRequested = true ∧ w.policy.cancelRace = .cancelFirst) ∧ w'.told = true
        then .completed else .running := by
  have hraised : w.raised rs = w.cancellationRequested := by
    rw [raised, decide_eq_false (h.not_cancel _), Bool.or_false]
  have hdelivered : w.delivered rs = w'.told := h.race.completed.symm
  have hcommits : w.commits rs = true ↔ w.policy.completion.kind = .singleResult ∧
      ¬(w.cancellationRequested = true ∧ w.policy.cancelRace = .cancelFirst) ∧
        w'.told = true := by
    rw [commits, hraised, hdelivered]
    simp only [Bool.and_eq_true, beq_iff_eq, Bool.not_eq_true', Bool.and_eq_false_iff,
      beq_eq_false_iff_ne, not_and_or, Bool.not_eq_true]
    tauto
  refine ⟨hs.progress_eq fun _ _ _ _ hop => WorkloadOp.noConfusion hop.1, ?_⟩
  rw [← if_congr hcommits rfl rfl]
  split
  case isTrue hc =>
    have hv : w.verdict rs (.commitCompletion w.generation) = some .completed := if_pos ⟨rfl, hc⟩
    have hs' : Step w' ((Request.commitCompletion w.generation).operation 0 w') o w'' := hs
    exact (h.race.decided hs' hv).1
  case isFalse hc =>
    rcases hs.granted_or with hg | ⟨-, rfl, -⟩
    · exact absurd (h.race.commit_granted_iff.mp hg).2 hc
    · exact h.running

/-- **A new episode is started and dispatched**, and begins its work. -/
theorem Working.begin {w w₁ w₂ : Workload} {o₁ o₂ : Outcome} {id : ExecutionEpisodeId}
    {owner : OwnerId} {ownerGen : OwnerGeneration} {worker : WorkerId} {boot : WorkerBootId}
    (hs₁ : Step w (.startEpisode id owner ownerGen true) o₁ w₁)
    (hs₂ : Step w₁ (.admitDispatch id worker boot) o₂ w₂)
    (hready : resumeEligible w.state = true) (hfinal : w.cancelledFinal = false)
    (hfresh : id ∉ w.episodeIds) (hunknown : w.progress.totalKind = .unknown) :
    o₂ = .allow ∧ Working w₂ id [] w₂ ∧ w₂.told = false ∧ w₂.core = w.core.begin id ∧
      w₁.progress = w.progress ∧ w₂.cancellationRequested = w.cancellationRequested := by
  obtain ⟨rfl, rfl⟩ := hs₁.episode_started hready hfinal
  obtain ⟨ep, hsucc, hid, hgen, hst⟩ := w.started_succeeds id owner ownerGen true
  have hids : (revokeAuthority w.episodes).map (·.id) = w.episodeIds := by
    rw [revokeAuthority, List.map_map]
    rfl
  obtain ⟨ho, hstate, hes⟩ := hs₂.dispatched (started_state ..) hsucc.episodes hid
    (by rwa [hids]) hst
  have hcore : w₂.core = w.core.begin id := (hs₂.core_eq trivial).trans (w.core_started ..)
  have hcompleted : ep.completed = false := by
    have hi : (w.started id owner ownerGen true).episodes[w.episodes.length]? = some ep := by
      rw [hsucc.episodes, List.getElem?_append_right (length_revokeAuthority _).le,
        length_revokeAuthority, Nat.sub_self]
      rfl
    exact completed_of_new ((hs₁.episode_new ⟨hfinal, hready⟩ (Nat.le_refl _)).mp hi).2
  have hcurrent := WorkloadEngine.currentEpisode_of_last hes (fun _ => mem_revokeAuthority)
    hsucc.authoritative
  have hfound : w₂.findEpisode id = some (bindWorker worker boot ep) := by
    have hid' : (bindWorker worker boot ep).id = id := hid
    rw [findEpisode, hes]
    refine FirstMatch.find?_append_singleton (p := fun e : Episode => e.id == id)
      (beq_iff_eq.mpr hid') fun e he => beq_eq_false_iff_ne.mpr fun heq => ?_
    exact hfresh (hids ▸ heq ▸ List.mem_map_of_mem he)
  have hnotfinal : w₂.cancelledFinal = false := (congrArg Core.cancelledFinal hcore).trans hfinal
  have hkind : w₂.progress.totalKind = .unknown :=
    (congrArg (·.progress.totalKind) hcore).trans hunknown
  refine ⟨ho, ⟨.begin hstate hkind, fun r hr => absurd hr List.not_mem_nil,
    ⟨_, hfound, hgen, hsucc.authoritative⟩, ?_, ?_⟩, ?_, hcore, hsucc.progress, ?_⟩
  · rw [hnotfinal, hstate]
    rfl
  · rw [hstate]
    rfl
  · rw [told, hcurrent]
    exact hcompleted
  · rcases hs₂.requested_cases with heq | ⟨_, hop, -⟩ | ⟨-, -, ⟨_, hop⟩ | ⟨_, hop⟩⟩
    · rw [heq]
      simp [started, beginEpisode]
    · exact WorkloadOp.noConfusion hop
    · exact WorkloadOp.noConfusion hop
    · exact WorkloadOp.noConfusion hop

end Workload

open Workload

/-! ### Reports as messages -/

theorem exists_of_piece {f : Frame} {n : ℕ} (h : noteOf f = some (.piece n)) :
    ∃ m, readMsg f = .ok (some m) ∧ m.type = .progress ∧ m.value.toNat = n := by
  rw [noteOf] at h
  rcases hread : readMsg f with e | _ | m
  · rw [hread] at h
    exact absurd h (by simp)
  · rw [hread] at h
    exact absurd h (by simp)
  · rw [hread] at h
    dsimp only at h
    cases htype : m.type <;> rw [htype] at h <;> first
      | exact ⟨m, rfl, htype, Note.piece.inj (Option.some.inj h)⟩
      | exact absurd h (by simp)

theorem exists_of_done {f : Frame} (h : noteOf f = some .done) :
    ∃ m, readMsg f = .ok (some m) ∧ m.type = .complete := by
  rw [noteOf] at h
  rcases hread : readMsg f with e | _ | m
  · rw [hread] at h
    exact absurd h (by simp)
  · rw [hread] at h
    exact absurd h (by simp)
  · rw [hread] at h
    dsimp only at h
    cases htype : m.type <;> rw [htype] at h <;> first
      | exact ⟨m, rfl, htype⟩
      | exact absurd h (by simp)

/-! ### The worker and its link -/

/-- The action leaves the workload and the `k`-th link alone. -/
def CoordinatorAction.LeavesAlone (id : WorkloadId) (k : ℕ) : CoordinatorAction → Prop
  | .command c => ∀ r, c.1.requestOn id = some r → r.undisturbing = true
  | .kill j _ => j ≠ k
  | _ => True

/-- The action reads the `k`-th link. -/
def CoordinatorAction.reads (k : ℕ) : CoordinatorAction → Bool
  | .receive j => j == k
  | _ => false

/-- An episode that was dispatched. -/
structure Engagement where
  workload : WorkloadId
  episode : ExecutionEpisodeId
  chunk : UInt64
  /-- the workload that was dispatched -/
  begun : Workload
  /-- the number of the link -/
  place : ℕ

namespace Coordinator

variable {σ : Type} [StateStore σ]

/-- After so many of its frames have been read, this is left on the link. -/
structure Underway (jobs : WorkloadId → UInt64) (g : Engagement) (reads : ℕ) (s : Coordinator σ)
    (inbox : List (Frame × List ℕ)) (w : Workload) : Prop where
  registered : s.engine.get g.workload = some w
  working : ∃ rs, g.begun.Working g.episode rs w
  linked : s.links[g.place]? = some ⟨g.workload, g.episode, inbox⟩
  reading : Reading noteOf (jobs g.workload).toNat g.chunk.toNat g.begun.progress.completed.toNat
    reads w.progress.completed.toNat (w.told = true) inbox

namespace Underway

variable {jobs : WorkloadId → UInt64} {g : Engagement} {reads : ℕ} {s : Coordinator σ}
  {inbox : List (Frame × List ℕ)} {w : Workload}

/-- What the engine is asked, if it is undisturbing. -/
theorem ask (h : Underway jobs g reads s inbox w) {r : Request} (hr : r.undisturbing = true) :
    ∃ w', (s.engine.step (.on g.workload r)).2.get g.workload = some w' ∧
      w.Step (r.operation s.engine.episodeCounter w) (s.engine.step (.on g.workload r)).1.outcome
        w' ∧
      (∃ rs, g.begun.Working g.episode rs w') ∧
      w'.told = (w.told || w.marksCurrent (r.operation s.engine.episodeCounter w)) := by
  obtain ⟨rs, hworking⟩ := h.working
  obtain ⟨w', hw', hs⟩ := s.engine.step_on_step h.registered r
  obtain ⟨hworking', htold⟩ := hworking.step hr hs
  exact ⟨w', hw', hs, ⟨_, hworking'⟩, htold⟩

/-- A call that is no news of the episode. -/
theorem call (h : Underway jobs g reads s inbox w) (c : EngineCall)
    (hc : ∀ r, c = .on g.workload r → r.undisturbing = true ∧
      w.marksCurrent (r.operation s.engine.episodeCounter w) = false ∧
      ∀ o w', w.Step (r.operation s.engine.episodeCounter w) o w' → w'.progress = w.progress)
    {links : List Link} (hlinks : links[g.place]? = s.links[g.place]?)
    {receipts : List Receipt} :
    ∃ w', Underway jobs g reads ⟨(s.engine.step c).2, links, receipts⟩ inbox w' := by
  by_cases hon : ∃ r, c = .on g.workload r
  · obtain ⟨r, rfl⟩ := hon
    obtain ⟨hr, hmarks, hprogress⟩ := hc r rfl
    obtain ⟨w', hw', hs, hworking, htold⟩ := h.ask hr
    refine ⟨w', hw', hworking, hlinks.trans h.linked, ?_⟩
    rw [hprogress _ _ hs, htold, hmarks, Bool.or_false]
    exact h.reading
  · rcases s.engine.step_get_cases h.registered c with ⟨-, hsame⟩ | ⟨r, _, hr, -⟩
    · exact ⟨w, hsame, h.working, hlinks.trans h.linked, h.reading⟩
    · exact absurd ⟨r, hr⟩ hon

variable {k : ℕ} {l : Link} {links : List Link}

/-- What another link says is no news of the episode. -/
theorem handle_other (h : Underway jobs g reads s inbox w) (hsound : Sound jobs s)
    (hk : s.links[k]? = some l) (hne : k ≠ g.place) (hlinks : links[g.place]? = s.links[g.place]?)
    (m : Message) (segments : List ℕ) :
    ∃ w', Underway jobs g reads ({ s with links := links }.handle l m segments) inbox w' := by
  obtain ⟨rs, hworking⟩ := h.working
  have hacc := hsound.registered _ _ h.registered
  have hother (hid : l.workload = g.workload) : l.episode ≠ g.episode := fun he =>
    hne (eq_of_key hsound.distinct hk h.linked (Prod.ext hid.symm he.symm))
  rw [handle]
  cases m.type with
  | progress =>
    refine h.call (.on l.workload (.progress l.episode (.fromU64 1) m.value m.flag1))
      (fun r hr => ?_) hlinks
    obtain ⟨hid, rfl⟩ := EngineCall.on.inj hr
    refine ⟨rfl, rfl, fun o w' hs => ?_⟩
    rcases hs.granted_or with ⟨⟨ep, hf, -, ha⟩, -⟩ | ⟨-, rfl, -⟩
    · have hnames : w.names l.episode = true := by
        rw [names, hf]
        exact ha
      exact absurd (hacc.eq_of_names hnames hworking.taking.names) (hother hid)
    · rfl
  | complete =>
    refine h.call (.on l.workload (.episodeCompleted l.episode)) (fun r hr => ?_) hlinks
    obtain ⟨hid, rfl⟩ := EngineCall.on.inj hr
    refine ⟨rfl, ?_, fun o w' hs => hs.progress_eq fun _ _ _ _ hop => WorkloadOp.noConfusion hop.1⟩
    rw [Bool.eq_false_iff]
    exact fun hmarks => hother hid ((hworking.namesCurrent_iff hacc.authority).mp hmarks)
  | _ => exact ⟨w, h.registered, h.working, hlinks.trans h.linked, h.reading⟩

/-- **The next frame of the worker is read**: its report is counted, its end is believed. -/
theorem receive_own (h : Underway jobs g reads s inbox w) (hsound : Sound jobs s) :
    ∃ inbox' w', Underway jobs g (reads + 1) (s.receive g.place) inbox' w' := by
  obtain ⟨rs, hworking⟩ := h.working
  have hacc := hsound.registered _ _ h.registered
  rw [Coordinator.receive, h.linked]
  rcases inbox with _ | ⟨⟨f, segments⟩, inbox⟩
  · exact ⟨[], w, h.registered, h.working, h.linked, h.reading.nil⟩
  have hset : (s.links.set g.place ⟨g.workload, g.episode, inbox⟩)[g.place]? =
      some ⟨g.workload, g.episode, inbox⟩ :=
    List.getElem?_set_self (List.getElem?_eq_some_iff.mp h.linked).1
  dsimp only
  rcases h.reading.cons with ⟨n, hf, hle, htold, hreading⟩ | ⟨hf, hreading⟩
  · obtain ⟨m, hread, htype, rfl⟩ := exists_of_piece hf
    rw [hread]
    dsimp only
    rw [handle, htype]
    set r : Request := .progress g.episode (.fromU64 1) m.value m.flag1
    obtain ⟨w', hw', hs, hworking', htold'⟩ := h.ask (r := r) rfl
    have hmarks : w.marksCurrent (r.operation s.engine.episodeCounter w) = false := rfl
    have hgranted := hacc.granted hworking.taking m.flag1 hle
    rw [hs.progress_iff.mpr hgranted] at hs
    obtain ⟨hlt, hp⟩ := Progress.advance_eq_some hs.report.2
    have hcount : w'.progress.completed.toNat =
        w.progress.completed.toNat + m.value.toNat := by
      rw [hp, UInt64.toNat_add, Nat.mod_eq_of_lt hlt]
    refine ⟨inbox, w', hw', hworking', hset, ?_⟩
    rw [hcount]
    refine hreading ?_
    rwa [htold', hmarks, Bool.or_false]
  · obtain ⟨m, hread, htype⟩ := exists_of_done hf
    rw [hread]
    dsimp only
    rw [handle, htype]
    obtain ⟨w', hw', hs, hworking', htold'⟩ := h.ask (r := .episodeCompleted g.episode) rfl
    have hp : w'.progress = w.progress :=
      hs.progress_eq fun _ _ _ _ hop => WorkloadOp.noConfusion hop.1
    have hmarks : w.namesCurrent g.episode = true :=
      (hworking.namesCurrent_iff hacc.authority).mpr rfl
    refine ⟨inbox, w', hw', hworking', hset, ?_⟩
    rw [hp]
    refine hreading ?_
    rw [htold', Bool.or_eq_true]
    exact .inr hmarks

/-- Another link is read. -/
theorem receive_other (h : Underway jobs g reads s inbox w) (hsound : Sound jobs s)
    (hne : k ≠ g.place) : ∃ w', Underway jobs g reads (s.receive k) inbox w' := by
  rw [Coordinator.receive]
  rcases hk : s.links[k]? with _ | l
  · exact ⟨w, h⟩
  dsimp only
  rcases l.inbox with _ | ⟨⟨f, segments⟩, rest⟩
  · exact ⟨w, h⟩
  dsimp only
  have hlinks : (s.links.set k { l with inbox := rest })[g.place]? = s.links[g.place]? :=
    List.getElem?_set_ne hne
  rcases readMsg f with _ | _ | m
  · exact ⟨w, h.registered, h.working, hlinks.trans h.linked, h.reading⟩
  · exact ⟨w, h.registered, h.working, hlinks.trans h.linked, h.reading⟩
  · exact h.handle_other hsound hk hne hlinks m segments

/-- A call that the coordinator makes on its own account. -/
theorem command (h : Underway jobs g reads s inbox w) {c : EngineCall} (hc : c.IsCommand)
    (hquiet : ∀ r, c.requestOn g.workload = some r → r.undisturbing = true)
    {links : List Link} (hlinks : links[g.place]? = s.links[g.place]?) :
    ∃ w', Underway jobs g reads { s with engine := (s.engine.step c).2, links := links } inbox
      w' := by
  refine h.call c (fun r hr => ?_) hlinks
  subst hr
  obtain ⟨hreport, hmark⟩ := operation_of_isCommand hc s.engine.episodeCounter w
  refine ⟨hquiet r (if_pos rfl), ?_, fun o w' hs => ?_⟩
  · cases r with
    | episodeCompleted episode => exact absurd rfl (hmark episode)
    | _ => rfl
  · exact hs.progress_eq fun e gen d b hop => hreport e gen d b hop.1

/-- **One action**, unless it takes the worker its workload or its link. -/
theorem step (h : Underway jobs g reads s inbox w) (hsound : Sound jobs s)
    {a : CoordinatorAction} (ha : a.LeavesAlone g.workload g.place) :
    ∃ inbox' w', Underway jobs g (if a.reads g.place then reads + 1 else reads) (s.step jobs a)
      inbox' w' := by
  cases a with
  | command c => exact ⟨inbox, h.command c.2 ha rfl⟩
  | dispatch a =>
    have hquiet : ∀ r, EngineCall.requestOn g.workload (.on a.workload a.request) = some r →
        r.undisturbing = true := by
      intro r hr
      rw [EngineCall.requestOn, Option.ite_none_right_eq_some] at hr
      obtain rfl := Option.some.inj hr.2
      rfl
    have hlt := (List.getElem?_eq_some_iff.mp h.linked).1
    change ∃ inbox' w', Underway jobs g reads (s.dispatch jobs a) inbox' w'
    rw [dispatch_eq]
    split
    · exact ⟨inbox, h.command (c := .on a.workload a.request) trivial hquiet
        (List.getElem?_append_left hlt)⟩
    · exact ⟨inbox, h.command (c := .on a.workload a.request) trivial hquiet rfl⟩
  | receive k =>
    rw [CoordinatorAction.reads]
    by_cases hk : k = g.place
    · subst hk
      rw [if_pos (beq_self_eq_true _)]
      exact h.receive_own hsound
    · rw [if_neg (by simpa using hk)]
      exact ⟨inbox, h.receive_other hsound hk⟩
  | kill k arriving =>
    refine ⟨inbox, w, h.registered, h.working, ?_, h.reading⟩
    rw [Coordinator.step]
    dsimp only
    rw [List.getElem?_modify, h.linked]
    exact congrArg some (if_neg ha)

/-- **Any actions**, in any order. -/
theorem run (h : Underway jobs g reads s inbox w) (hsound : Sound jobs s)
    {actions : List CoordinatorAction}
    (hactions : ∀ a ∈ actions, a.LeavesAlone g.workload g.place) :
    Sound jobs (s.run jobs actions) ∧
      ∃ inbox' w', Underway jobs g (reads + actions.countP (·.reads g.place)) (s.run jobs actions)
        inbox' w' := by
  induction actions generalizing reads s inbox w with
  | nil => exact ⟨hsound, inbox, w, h⟩
  | cons a actions ih =>
    obtain ⟨ha, hactions⟩ := List.forall_mem_cons.mp hactions
    obtain ⟨inbox', w', h'⟩ := h.step hsound ha
    have hcount : reads + (a :: actions).countP (·.reads g.place) =
        (if a.reads g.place then reads + 1 else reads) + actions.countP (·.reads g.place) := by
      rw [List.countP_cons]
      split <;> omega
    rw [hcount]
    exact ih h' (hsound.step a) hactions

end Underway

/-- What the coordinator does to have the worker go on with the work. -/
def engage (s : Coordinator σ) (id : WorkloadId) (owner : OwnerId) (ownerGen : OwnerGeneration)
    (worker : Worker) (chunk : UInt64) (token : Text) : List CoordinatorAction :=
  [.command ⟨.on id (.startEpisode owner ownerGen), trivial⟩,
    .dispatch ⟨id, .fromU64 s.engine.episodeCounter, worker, chunk, token⟩]

/-- All the work that is left is under way then. -/
theorem Underway.begin {jobs : WorkloadId → UInt64} {s : Coordinator σ} (hsound : Sound jobs s)
    {id : WorkloadId} {w : Workload} (hw : s.engine.get id = some w)
    (hready : resumeEligible w.state = true) (hfinal : w.cancelledFinal = false)
    (hfresh : .fromU64 s.engine.episodeCounter ∉ w.episodeIds) (owner : OwnerId)
    (ownerGen : OwnerGeneration) (worker : Worker) {chunk : UInt64} (hchunk : chunk ≠ 0)
    {token : Text} (htoken : token.length ≤ kMaxFrameSize - 256) :
    ∃ inbox w', w'.core = w.core.begin (.fromU64 s.engine.episodeCounter) ∧
      w'.cancellationRequested = w.cancellationRequested ∧
      Underway jobs ⟨id, .fromU64 s.engine.episodeCounter, chunk, w', s.links.length⟩ 0
        (s.run jobs (s.engage id owner ownerGen worker chunk token)) inbox w' := by
  set a : Assignment := ⟨id, .fromU64 s.engine.episodeCounter, worker, chunk, token⟩
  have hacc := hsound.registered _ _ hw
  obtain ⟨w₁, hw₁, hs₁⟩ := s.engine.step_on_step hw (.startEpisode owner ownerGen)
  set e := (s.engine.step (.on id (.startEpisode owner ownerGen))).2 with he
  obtain ⟨w₂, hw₂, hs₂⟩ := e.step_on_step hw₁ a.request
  obtain ⟨ho, hworking, htold, hcore, hprogress, hrequested⟩ :=
    Working.begin hs₁ hs₂ hready hfinal hfresh hacc.unknown
  have hsnapshot : e.snapshot id = w₁ := by
    rw [WorkloadEngine.snapshot, hw₁]
    rfl
  have hrun : s.run jobs (s.engage id owner ownerGen worker chunk token) =
      { s with
        engine := (e.step (.on id a.request)).2
        links := s.links ++ [a.link a.register (jobs id) w₁] } := by
    change ({ s with engine := e }).dispatch jobs a = _
    rw [dispatch_eq, if_pos ((isAllow_iff _).mpr ho), ← hsnapshot]
  have hreg : decodeMessage (encodeMessage a.register) = .ok a.register :=
    decodeMessage_short (Nat.zero_le _)
  have hwithin : w₁.progress.completed ≤ jobs id := by
    rw [hprogress]
    exact UInt64.le_iff_toNat_le.mpr hacc.within
  have hwhole := a.whole_inbox hreg hchunk htoken hwithin
  have hp : w₂.progress.completed = w₁.progress.completed := by
    rw [hprogress]
    exact congrArg (·.progress.completed) hcore
  have hpos : 0 < chunk.toNat := Nat.pos_of_ne_zero fun h => hchunk (UInt64.toNat_inj.mp h)
  refine ⟨(a.link a.register (jobs id) w₁).inbox, w₂, hcore, hrequested, ?_⟩
  rw [hrun]
  refine ⟨hw₂, ⟨[], hworking⟩, List.getElem?_concat_length, ?_⟩
  dsimp only
  rw [hp]
  exact .begin hpos (UInt64.le_iff_toNat_le.mp hwithin) hwhole (by rw [htold]; decide)

theorem run_append (jobs : WorkloadId → UInt64) (s : Coordinator σ)
    (actions actions' : List CoordinatorAction) :
    s.run jobs (actions ++ actions') = (s.run jobs actions).run jobs actions' :=
  List.foldl_append

/-- **One worker comes as far as its reports are read.**  After any run of the coordinator an
episode of a workload that may start is dispatched to a worker; whatever happens then, in
whatever order, but to this link and to what the workload is at, the work has come as many
chunks further as there were frames read from this worker, up to its total; and the commit
completes it exactly if they were all read, the policy asks for a single result and no
cancellation stands before it.  The id that the engine draws next is new to the workload, the
chunk is not 0 and the token fits a frame: without these the dispatch does not reach the worker
or brings no report. -/
theorem worker_finishes (jobs : WorkloadId → UInt64) (store : Option σ)
    (past meanwhile : List CoordinatorAction) {s : Coordinator σ}
    (hpast : (ofStore store).run jobs past = s) {id : WorkloadId} {w : Workload}
    (hw : s.engine.get id = some w) (hready : resumeEligible w.state = true)
    (hfinal : w.cancelledFinal = false) (hfresh : .fromU64 s.engine.episodeCounter ∉ w.episodeIds)
    (owner : OwnerId) (ownerGen : OwnerGeneration) (worker : Worker) {chunk : UInt64}
    (hchunk : chunk ≠ 0) {token : Text} (htoken : token.length ≤ kMaxFrameSize - 256)
    (hmeanwhile : ∀ a ∈ meanwhile, a.LeavesAlone id s.links.length) :
    ∃ w', (s.run jobs (s.engage id owner ownerGen worker chunk token ++ meanwhile ++
        [.command ⟨.on id (.commitCompletion (next w.generation)), trivial⟩])).engine.get id =
          some w' ∧
      w'.progress.completed.toNat = min (jobs id).toNat (w.progress.completed.toNat +
        chunk.toNat * meanwhile.countP (·.reads s.links.length)) ∧
      w'.state =
        if w.policy.completion.kind = .singleResult ∧
            ¬(w.cancellationRequested = true ∧ w.policy.cancelRace = .cancelFirst) ∧
            ((jobs id).toNat - w.progress.completed.toNat) ⌈/⌉ chunk.toNat <
              meanwhile.countP (·.reads s.links.length)
          then .completed else .running := by
  have hsound : Sound jobs s := hpast ▸ sound_run jobs store past
  obtain ⟨inbox, w₂, hcore, hrequested, hbegin⟩ :=
    Underway.begin hsound hw hready hfinal hfresh owner ownerGen worker hchunk htoken
  have hsound' := List.foldlRecOn (motive := Sound jobs)
    (s.engage id owner ownerGen worker chunk token) _ hsound fun s hs a _ => hs.step a
  obtain ⟨-, inbox', w', h⟩ := hbegin.run hsound' hmeanwhile
  rw [Nat.zero_add] at h
  obtain ⟨rs, hworking⟩ := h.working
  obtain ⟨w'', hw'', hs⟩ :=
    WorkloadEngine.step_on_step _ h.registered (.commitCompletion (next w.generation))
  have hgeneration : w₂.generation = next w.generation := congrArg Core.generation hcore
  have hpolicy : w₂.policy = w.policy := congrArg Core.policy hcore
  have hcompleted : w₂.progress.completed = w.progress.completed :=
    congrArg (·.progress.completed) hcore
  rw [← hgeneration] at hs
  obtain ⟨hp, hstate⟩ := hworking.commit hs
  refine ⟨w'', ?_, ?_, ?_⟩
  · rw [run_append, run_append]
    exact hw''
  · rw [hp, h.reading.count_eq, hcompleted]
  · rw [hstate, hpolicy, hrequested]
    refine if_congr (and_congr_right fun _ => and_congr_right fun _ => ?_) rfl rfl
    rw [h.reading.ended_iff, hcompleted]

/-- The first worker has been given up as lost, and its third report is still under way. -/
def lostFirst : Coordinator (MemoryStateStore .leftToRight) :=
  (ofStore none).run (fun _ => 32) (primaryScenario.take 11)

theorem worker_finishes_second : ∃ w', (lostFirst.run (fun _ => 32)
    (lostFirst.engage (.fromU64 1) (.fromU64 2) (.fromU64 1)
        ⟨fun segment _ => segment, .fromU64 2, .fromU64 2⟩ 8 (text "job-B") ++
      [.receive 1, .receive 0, .receive 1, .receive 1] ++
      [.command ⟨.on (.fromU64 1) (.commitCompletion (.fromU64 3)), trivial⟩])).engine.get
        (.fromU64 1) = some w' ∧
    w'.progress.completed.toNat = 32 ∧ w'.state = .completed := by
  have hfacts : (lostFirst.engine.get (.fromU64 1)).map (fun w =>
      (resumeEligible w.state && !w.cancelledFinal && !w.cancellationRequested &&
        !decide (.fromU64 lostFirst.engine.episodeCounter ∈ w.episodeIds),
        w.policy.completion.kind, w.generation, w.progress.completed.toNat)) =
      some (true, .singleResult, .fromU64 2, 16) := by decide +kernel
  have hlinks : lostFirst.links.length = 1 := by decide +kernel
  obtain ⟨w, hw, hall⟩ := Option.map_eq_some_iff.mp hfacts
  simp only [Prod.mk.injEq, Bool.and_eq_true, Bool.not_eq_true', decide_eq_false_iff_not] at hall
  obtain ⟨⟨⟨⟨hready, hfinal⟩, hrequested⟩, hfresh⟩, hkind, hgeneration, hcompleted⟩ := hall
  have hchunk : (8 : UInt64) ≠ 0 := by decide
  have htoken : (text "job-B").length ≤ kMaxFrameSize - 256 := by decide
  obtain ⟨w', hw', hcount, hstate⟩ := worker_finishes (fun _ => 32) none (primaryScenario.take 11)
    [.receive 1, .receive 0, .receive 1, .receive 1] (s := lostFirst) rfl hw hready hfinal hfresh
    (.fromU64 2) (.fromU64 1) ⟨fun segment _ => segment, .fromU64 2, .fromU64 2⟩ hchunk htoken
    (by simp [CoordinatorAction.LeavesAlone])
  rw [hgeneration] at hw'
  refine ⟨w', hw', ?_, ?_⟩
  · rw [hcount, hcompleted, hlinks]
    decide
  · rw [hstate, hkind, hrequested, hcompleted, hlinks]
    exact if_pos ⟨rfl, by simp, by decide⟩

end Coordinator

end WorkloadFabric
