/-
One authoritative episode, one fence, one progress count.

Only three operations touch the standing of episodes: an accepted
`startEpisode`, an accepted `commitMigration` and an accepted `reportProgress`
(`Step.standing_cases`).  From it the joint invariant `Authority` follows for
every run of the engine: the authoritative episode stands last, the generation
counts the episodes, and the authoritative episode mirrors the progress of the
workload.
-/
import WorkloadFabric.EngineRuns

namespace WorkloadFabric

open FirstMatch

/-- What of an episode only a new incarnation or a progress report changes. -/
def Episode.standing (e : Episode) :
    ExecutionEpisodeId × ExecutionEpisodeGeneration × Bool × Progress :=
  (e.id, e.generation, e.authoritative, e.progress)

namespace Workload

/-- Neither the fence nor the progress nor the standing of an episode changes. -/
structure Quiet (w w' : Workload) : Prop where
  generation : w'.generation = w.generation
  progress : w'.progress = w.progress
  counter : w'.episodeCounterForMigration = w.episodeCounterForMigration
  standing : w'.episodes.map Episode.standing = w.episodes.map Episode.standing

namespace Quiet

variable {w w' w'' : Workload}

protected theorem refl (w : Workload) : Quiet w w := ⟨rfl, rfl, rfl, rfl⟩

theorem length (h : Quiet w w') : w'.episodes.length = w.episodes.length := by
  have := congrArg List.length h.standing
  rwa [List.length_map, List.length_map] at this

theorem trans (h : Quiet w w') (h' : Quiet w' w'') : Quiet w w'' :=
  ⟨h'.generation.trans h.generation, h'.progress.trans h.progress, h'.counter.trans h.counter,
    h'.standing.trans h.standing⟩

theorem moved (h : Quiet w w') (s : WorkloadState) (reason : Text) : Quiet w (w'.moved s reason) :=
  h.trans ⟨moved_generation .., moved_progress .., moved_episodeCounterForMigration ..,
    by rw [moved_episodes]⟩

theorem record (h : Quiet w w') (s t : WorkloadState) (reason : Text) (o : Outcome) :
    Quiet w (w'.record s t reason o) := h.trans ⟨rfl, rfl, rfl, rfl⟩

theorem modifyEpisode (w : Workload) (id : ExecutionEpisodeId) {f : Episode → Episode}
    (hf : ∀ e, (f e).standing = e.standing) : Quiet w (w.modifyEpisode id f) :=
  ⟨rfl, rfl, rfl, map_modifyFirst hf _⟩

theorem modifyCurrent (w : Workload) {f : Episode → Episode}
    (hf : ∀ e, (f e).standing = e.standing) : Quiet w (w.modifyCurrent f) := by
  refine ⟨rfl, rfl, rfl, ?_⟩
  rw [Workload.modifyCurrent]
  simp only
  split
  · exact map_modifyFirst hf _
  · exact map_modifyLast hf _

section Edits

variable (w : Workload)

theorem claimCompletion : Quiet w w.claimCompletion :=
  (modifyCurrent w (f := fun e => { e with completed := true }) fun _ => rfl).trans
    ⟨rfl, rfl, rfl, rfl⟩

theorem countCompletion : Quiet w w.countCompletion := ⟨rfl, rfl, rfl, rfl⟩

theorem flagCancellation : Quiet w w.flagCancellation := ⟨rfl, rfl, rfl, rfl⟩

theorem flagCancelledFinal : Quiet w w.flagCancelledFinal := ⟨rfl, rfl, rfl, rfl⟩

theorem takeRestartSlot (reason : Text) : Quiet w (w.takeRestartSlot reason) :=
  ⟨rfl, rfl, rfl, rfl⟩

theorem countMigration : Quiet w w.countMigration := ⟨rfl, rfl, rfl, rfl⟩

end Edits

end Quiet

/-- **What a step can do to the standing of episodes.** -/
theorem Step.standing_cases {w w' : Workload} {op : WorkloadOp} {o : Outcome}
    (h : Step w op o w') :
    Quiet w w' ∨
    (∃ id owner ownerGen adv, op = .startEpisode id owner ownerGen adv ∧ o = .allow ∧
      w' = w.started id owner ownerGen adv) ∨
    (∃ g worker boot, op = .commitMigration g worker boot ∧ o = .allow ∧
      w' = w.migrated worker boot) ∨
    (∃ episode gen delta durable ep p, op = .reportProgress episode gen delta durable ∧
      o = .allow ∧ w.findEpisode episode = some ep ∧ ep.authoritative = true ∧
      ¬(w.progress.totalKind = .known ∧ w.progress.total < w.progress.completed + delta) ∧
      w.progress.advance delta durable = some p ∧
      w' = { w with progress := p }.modifyEpisode episode (creditEpisode delta durable)) := by
  cases h with
  | rejected => exact .inl (.refl w)
  | transition => exact .inl ((Quiet.refl w).moved _ _)
  | transitionRefused => exact .inl ((Quiet.refl w).record _ _ _ _)
  | settle => exact .inl ((Quiet.refl w).moved _ _)
  | settleRefused => exact .inl ((Quiet.refl w).record _ _ _ _)
  -- one of the three steps that are not quiet
  | start => exact .inr (.inl ⟨_, _, _, _, rfl, rfl, rfl⟩)
  | @dispatch episode worker boot =>
    left
    have hq := Quiet.modifyEpisode w episode (f := bindWorker worker boot) fun _ => rfl
    split
    · exact hq.moved _ _
    · exact hq
  | progress hf _ ha _ _ hd hp =>
    exact .inr (.inr (.inr ⟨_, _, _, _, _, _, rfl, rfl, hf, ha, hd, hp, rfl⟩))
  | complete =>
    have hq := Quiet.claimCompletion w
    exact .inl ((hq.moved _ _).moved _ _)
  | completeRefused =>
    have hq := Quiet.claimCompletion w
    exact .inl (hq.record _ _ _ _)
  | finalize =>
    have hq := Quiet.countCompletion w
    exact .inl ((hq.moved _ _).moved _ _)
  | finalizeRefused =>
    have hq := Quiet.countCompletion w
    exact .inl (hq.record _ _ _ _)
  | cancelAgain => exact .inl ⟨rfl, rfl, rfl, rfl⟩
  | cancel =>
    have hq := Quiet.flagCancellation w
    exact .inl (hq.moved _ _)
  | cancelRefused =>
    have hq := Quiet.flagCancellation w
    exact .inl (hq.record _ _ _ _)
  | cancelledAgain => exact .inl ⟨rfl, rfl, rfl, rfl⟩
  | cancelled =>
    have hq := Quiet.flagCancelledFinal w
    exact .inl (((hq.moved _ _).moved _ _).moved _ _)
  | cancelledRefused =>
    have hq := Quiet.flagCancelledFinal w
    exact .inl (hq.record _ _ _ _)
  | lost =>
    left
    have hq := Quiet.modifyCurrent w (f := loseWorker) fun _ => rfl
    split
    · exact hq.moved _ _
    · exact hq
  | @markCompleted id => exact .inl (Quiet.modifyEpisode w id (f := completeEpisode) fun _ => rfl)
  | @markFailed id => exact .inl (Quiet.modifyEpisode w id (f := failEpisode) fun _ => rfl)
  | @restart _ reason =>
    have hq := Quiet.takeRestartSlot w reason
    exact .inl (hq.moved _ _)
  | @restartRefused _ reason =>
    have hq := Quiet.takeRestartSlot w reason
    exact .inl (hq.record _ _ _ _)
  | suspend => exact .inl ((Quiet.refl w).moved _ _)
  | suspendRefused => exact .inl ((Quiet.refl w).record _ _ _ _)
  | suspendedAgain => exact .inl (.refl w)
  | suspended =>
    have hq := Quiet.modifyCurrent w (f := suspendEpisode) fun _ => rfl
    exact .inl ((hq.moved _ _).moved _ _)
  | resume => exact .inl ((Quiet.refl w).moved _ _)
  | migrate =>
    have hq := Quiet.countMigration w
    exact .inl (hq.moved _ _)
  | migrateRefused =>
    have hq := Quiet.countMigration w
    exact .inl (hq.record _ _ _ _)
  | commitMigration => exact .inr (.inr (.inl ⟨_, _, _, rfl, rfl, rfl⟩))
  | setPolicy => exact .inl ⟨rfl, rfl, rfl, rfl⟩
  | define => exact .inl ⟨rfl, rfl, rfl, rfl⟩
  | setStatus => exact .inl ⟨rfl, rfl, rfl, rfl⟩
  | addRequirement => exact .inl ⟨rfl, rfl, rfl, rfl⟩
  | applyGrant => exact .inl ⟨rfl, rfl, rfl, rfl⟩

/-! ### New incarnations -/

theorem length_revokeAuthority (es : List Episode) :
    (revokeAuthority es).length = es.length := List.length_map _

theorem mem_revokeAuthority {es : List Episode} {e : Episode} (h : e ∈ revokeAuthority es) :
    e.authoritative = false := by
  obtain ⟨e', -, rfl⟩ := List.mem_map.mp h
  rfl

/-- The last episode of an accepted `startEpisode` or `commitMigration`; all
others have lost authority. -/
structure Succeeds (w w' : Workload) (ep : Episode) : Prop where
  episodes : w'.episodes = revokeAuthority w.episodes ++ [ep]
  authoritative : ep.authoritative = true
  mirrors : ep.progress = w.progress
  progress : w'.progress = w.progress

theorem Succeeds.length {w w' : Workload} {ep : Episode} (h : Succeeds w w' ep) :
    w'.episodes.length = w.episodes.length + 1 := by
  rw [h.episodes, List.length_append, length_revokeAuthority, List.length_singleton]

theorem started_succeeds (w : Workload) (id : ExecutionEpisodeId) (owner : OwnerId)
    (ownerGen : OwnerGeneration) (adv : Bool) :
    ∃ ep, Succeeds w (w.started id owner ownerGen adv) ep ∧ ep.id = id ∧
      ep.generation = .fromU64 1 ∧ ep.state = .admitted := by
  set w₁ := (w.moved .ready (text "resume eligible")).moved .starting (text "start episode")
  have hep : w₁.episodes = w.episodes := by rw [moved_episodes, moved_episodes]
  have hpr : w₁.progress = w.progress := by rw [moved_progress, moved_progress]
  refine ⟨w₁.admittedEpisode id owner ownerGen, ⟨?_, rfl, hpr, hpr⟩, rfl, rfl, rfl⟩
  rw [← hep]
  rfl

@[simp] theorem started_generation (w : Workload) (id : ExecutionEpisodeId) (owner : OwnerId)
    (ownerGen : OwnerGeneration) (adv : Bool) :
    (w.started id owner ownerGen adv).generation =
      if adv then next w.generation else w.generation := by
  simp [started, beginEpisode]

@[simp] theorem started_episodeCounterForMigration (w : Workload) (id : ExecutionEpisodeId)
    (owner : OwnerId) (ownerGen : OwnerGeneration) (adv : Bool) :
    (w.started id owner ownerGen adv).episodeCounterForMigration =
      w.episodeCounterForMigration := by
  simp [started, beginEpisode]

@[simp] theorem started_state (w : Workload) (id : ExecutionEpisodeId) (owner : OwnerId)
    (ownerGen : OwnerGeneration) (adv : Bool) :
    (w.started id owner ownerGen adv).state = .starting := by
  simp [started, beginEpisode]

theorem migrated_succeeds (w : Workload) (worker : WorkerId) (boot : WorkerBootId) :
    ∃ ep, Succeeds w (w.migrated worker boot) ep ∧
      ep.id = .fromU64 w.episodeCounterForMigration ∧ ep.generation = .fromU64 1 ∧
      ep.state = .running ∧ ep.worker = worker ∧ ep.boot = boot := by
  set w₁ := w.moved .migrating (text "migrating") with hw₁
  have hep : w₁.episodes = w.episodes := moved_episodes ..
  have hpr : w₁.progress = w.progress := moved_progress ..
  have hct : w₁.episodeCounterForMigration = w.episodeCounterForMigration :=
    moved_episodeCounterForMigration ..
  refine ⟨w₁.targetEpisode worker boot, ⟨?_, rfl, hpr, ?_⟩, congrArg _ hct, rfl, rfl, rfl, rfl⟩
  · rw [migrated, moved_episodes, ← hep]
    rfl
  · rw [migrated, moved_progress, ← hpr]
    rfl

@[simp] theorem migrated_generation (w : Workload) (worker : WorkerId) (boot : WorkerBootId) :
    (w.migrated worker boot).generation = next w.generation := by
  simp [migrated, handOver]

@[simp] theorem migrated_episodeCounterForMigration (w : Workload) (worker : WorkerId)
    (boot : WorkerBootId) :
    (w.migrated worker boot).episodeCounterForMigration =
      w.episodeCounterForMigration + 1 := by
  simp [migrated, handOver]

/-! ### The authoritative episode stands last -/

theorem Quiet.soleLast {w w' : Workload} (hq : Quiet w w')
    (h : SoleLast (·.authoritative) w.episodes) : SoleLast (·.authoritative) w'.episodes := by
  refine h.of_map ?_
  have := congrArg (List.map fun s => s.2.2.1) hq.standing
  rwa [List.map_map, List.map_map] at this

theorem Succeeds.soleLast {w w' : Workload} {ep : Episode} (hs : Succeeds w w' ep) :
    SoleLast (·.authoritative) w'.episodes := by
  rw [hs.episodes]
  exact SoleLast.handOver hs.authoritative fun _ => mem_revokeAuthority

/-- **No step makes an episode authoritative except the one that it pushes.** -/
theorem Step.soleLast {w w' : Workload} {op : WorkloadOp} {o : Outcome} (hs : Step w op o w')
    (h : SoleLast (·.authoritative) w.episodes) : SoleLast (·.authoritative) w'.episodes := by
  rcases hs.standing_cases with hq | ⟨id, owner, ownerGen, adv, -, -, rfl⟩ |
    ⟨_, worker, boot, -, -, rfl⟩ | ⟨_, _, _, _, _, _, -, -, -, -, -, -, rfl⟩
  · exact hq.soleLast h
  · obtain ⟨_, hsucc, -⟩ := w.started_succeeds id owner ownerGen adv
    exact hsucc.soleLast
  · obtain ⟨_, hsucc, -⟩ := w.migrated_succeeds worker boot
    exact hsucc.soleLast
  · exact h.modifyFirst fun _ => rfl

/-! ### The invariant -/

/-- One authoritative episode, one fence, one progress count. -/
structure Authority (w : Workload) : Prop where
  /-- the authoritative episode is the only one, and stands last -/
  soleLast : SoleLast (·.authoritative) w.episodes
  /-- the generation counts the episodes -/
  fence : w.generation.toU64.toNat = (1 + w.episodes.length) % 2 ^ 64
  /-- the authoritative episode mirrors the progress of the workload -/
  mirror : ∀ e ∈ w.episodes, e.authoritative = true →
    e.progress.completed = w.progress.completed ∧
      e.progress.checkpointed = w.progress.checkpointed

/-- The operation does not start an episode without advancing the fence. -/
def Fencing : WorkloadOp → Prop
  | .startEpisode _ _ _ adv => adv = true
  | _ => True

theorem Authority.create (id : WorkloadId) (name intent : Text) :
    Authority (create id name intent) where
  soleLast := .nil _
  fence := rfl
  mirror e he := absurd he (by simp [Workload.create])

theorem Authority.quiet {w w' : Workload} (h : Authority w) (hq : Quiet w w') : Authority w' where
  soleLast := hq.soleLast h.soleLast
  fence := by
    rw [hq.generation, hq.length]
    exact h.fence
  mirror e he ha := by
    have hmem : e.standing ∈ w.episodes.map Episode.standing :=
      hq.standing ▸ List.mem_map_of_mem he
    obtain ⟨e', he', hs⟩ := List.mem_map.mp hmem
    rw [Episode.standing, Episode.standing, Prod.mk.injEq, Prod.mk.injEq, Prod.mk.injEq] at hs
    rw [hq.progress, ← hs.2.2.2]
    exact h.mirror e' he' (hs.2.2.1.trans ha)

theorem Authority.succeed {w w' : Workload} {ep : Episode} (h : Authority w)
    (hs : Succeeds w w' ep) (hg : w'.generation = next w.generation) : Authority w' where
  soleLast := hs.soleLast
  fence := by
    -- one episode more, one generation more
    have := h.fence
    rw [hg, hs.length, next_toU64, UInt64.toNat_add, UInt64.toNat_one]
    omega
  mirror e he ha := by
    rw [hs.episodes] at he
    rcases List.mem_append.mp he with he | he
    · rw [mem_revokeAuthority he] at ha
      exact absurd ha (by decide)
    · rw [List.mem_singleton.mp he, hs.mirrors, hs.progress]
      exact ⟨rfl, rfl⟩

/-- The report is credited to the last episode, and to no other. -/
theorem Authority.credit {w : Workload} (h : Authority w) {episode : ExecutionEpisodeId}
    {ep : Episode} (hf : w.findEpisode episode = some ep) (ha : ep.authoritative = true)
    {delta : UInt64} {durable : Bool} {p : Progress}
    (hp : w.progress.advance delta durable = some p) :
    Authority ({ w with progress := p }.modifyEpisode episode (creditEpisode delta durable)) where
  soleLast := h.soleLast.modifyFirst fun _ => rfl
  fence := by
    rw [modifyEpisode, length_modifyFirst]
    exact h.fence
  mirror e he hauth := by
    -- the search stops at the last episode: no earlier one has its id
    obtain ⟨init, hw, hinit, hids⟩ := h.soleLast.find?_marked hf ha
    have hid : (ep.id == episode) = true :=
      List.find?_some (p := fun e : Episode => e.id == episode) hf
    rw [modifyEpisode] at he
    simp only at he
    rw [hw, modifyFirst_append_singleton (p := fun e : Episode => e.id == episode) hid hids] at he
    obtain ⟨-, rfl⟩ := Progress.advance_eq_some hp
    have hmirror := h.mirror ep (List.mem_of_find?_eq_some hf) ha
    rcases List.mem_append.mp he with he | he
    · rw [hinit e he] at hauth
      exact absurd hauth (by decide)
    · rw [List.mem_singleton.mp he, creditEpisode]
      simp only [modifyEpisode, hmirror.1, hmirror.2, and_self]

/-- Crediting an accepted report to the episode does not wrap. -/
theorem Authority.no_wrap {w w' : Workload} (h : Authority w) {episode : ExecutionEpisodeId}
    {gen : ExecutionEpisodeGeneration} {delta : UInt64} {durable : Bool}
    (hs : Step w (.reportProgress episode gen delta durable) .allow w') :
    ∃ ep, w.findEpisode episode = some ep ∧
      ep.progress.completed.toNat + delta.toNat < 2 ^ 64 := by
  cases hs with
  | rejected ho => exact absurd rfl ho
  | progress hf _ ha _ _ _ hp =>
    refine ⟨_, hf, ?_⟩
    -- the mirror lends the episode the guard of `advance`
    rw [(h.mirror _ (List.mem_of_find?_eq_some hf) ha).1]
    exact (Progress.advance_eq_some hp).1

/-- **Every step that fences its episodes keeps the invariant.** -/
theorem Authority.step {w w' : Workload} {op : WorkloadOp} {o : Outcome} (h : Authority w)
    (hop : Fencing op) (hs : Step w op o w') : Authority w' := by
  rcases hs.standing_cases with hq | ⟨id, owner, ownerGen, adv, rfl, -, rfl⟩ |
    ⟨g, worker, boot, rfl, -, rfl⟩ |
    ⟨episode, gen, delta, durable, ep, p, rfl, -, hf, ha, -, hp, rfl⟩
  · exact h.quiet hq
  · obtain ⟨ep, hsucc, -⟩ := w.started_succeeds id owner ownerGen adv
    refine h.succeed hsucc ?_
    rw [started_generation, if_pos (show adv = true from hop)]
  · obtain ⟨ep, hsucc, -⟩ := w.migrated_succeeds worker boot
    exact h.succeed hsucc (migrated_generation ..)
  · exact h.credit hf ha hp

/-! ### The fence moves with the incarnations only -/

/-- The operation is to bring a new incarnation. -/
def Incarnates : WorkloadOp → Prop
  | .startEpisode _ _ _ _ => True
  | .commitMigration _ _ _ => True
  | _ => False

theorem Step.incarnation {w w' : Workload} {op : WorkloadOp} (h : Step w op .allow w')
    (hf : Fencing op) (hop : Incarnates op) :
    w'.generation = next w.generation ∧ w'.episodes.length = w.episodes.length + 1 := by
  cases h with
  | rejected ho => exact absurd rfl ho
  | @start id owner ownerGen adv =>
    obtain ⟨ep, hs, -⟩ := w.started_succeeds id owner ownerGen adv
    rw [started_generation, if_pos (show adv = true from hf), hs.length]
    exact ⟨rfl, rfl⟩
  | @commitMigration _ worker boot =>
    obtain ⟨ep, hs, -⟩ := w.migrated_succeeds worker boot
    rw [migrated_generation, hs.length]
    exact ⟨rfl, rfl⟩
  | _ => exact hop.elim

theorem Step.no_incarnation {w w' : Workload} {op : WorkloadOp} {o : Outcome}
    (h : Step w op o w') (hn : ¬(Incarnates op ∧ o = .allow)) :
    w'.generation = w.generation ∧ w'.episodes.length = w.episodes.length := by
  rcases h.standing_cases with hq | ⟨_, _, _, _, rfl, rfl, -⟩ | ⟨_, _, _, rfl, rfl, -⟩ |
    ⟨_, _, _, _, _, _, -, -, -, -, -, -, rfl⟩
  · exact ⟨hq.generation, hq.length⟩
  · exact absurd ⟨trivial, rfl⟩ hn
  · exact absurd ⟨trivial, rfl⟩ hn
  · exact ⟨rfl, length_modifyFirst ..⟩

end Workload

/-- The engine always fences the episodes it starts. -/
theorem Request.fencing (counter : UInt64) (w : Workload) (r : Request) :
    Workload.Fencing (r.operation counter w) := by
  cases r <;> first | exact trivial | rfl

namespace WorkloadEngine

variable {σ : Type} [StateStore σ]

/-- The invariant holds of every registered workload after every run. -/
theorem authority_of_run {store : Option σ} {calls : List EngineCall} {id : WorkloadId}
    {w : Workload} (h : ((ofStore store).run calls).get id = some w) : w.Authority := by
  refine workload_induction (P := fun _ w => w.Authority) ?_ ?_ ?_ calls h
  · intro _ name intent policy _
    have hfence : Workload.Fencing (.setPolicy policy) := trivial
    exact (Workload.Authority.create id name intent).step hfence .setPolicy
  · exact fun _ _ _ _ _ ha => ha
  · exact fun _ r w _ ha => ha.step (r.fencing _ w) (w.apply_step none _)

/-- The call is to bring a new incarnation of the workload. -/
def incarnates (id : WorkloadId) : EngineCall → Prop
  | .on id' (.startEpisode _ _) => id' = id
  | .on id' (.commitMigration _ _ _) => id' = id
  | _ => False

theorem on_of_incarnates {id : WorkloadId} {c : EngineCall} (h : incarnates id c) :
    ∃ r, c = .on id r := by
  rcases c with _ | ⟨id', r⟩
  · exact h.elim
  · cases r
    case startEpisode => exact ⟨_, by rw [show id' = id from h]⟩
    case commitMigration => exact ⟨_, by rw [show id' = id from h]⟩
    all_goals exact h.elim

theorem incarnates_on (id : WorkloadId) (r : Request) (counter : UInt64) (w : Workload) :
    incarnates id (.on id r) ↔ Workload.Incarnates (r.operation counter w) := by
  cases r <;> simp [incarnates, Request.operation, Workload.Incarnates]

/-- **Single authority, one fence, mirrored progress**, after every run of the
engine: the fence moves with the accepted incarnations and with nothing else, and
crediting an accepted report to the episode does not wrap. -/
theorem single_authority (store : Option σ) (calls : List EngineCall) (id : WorkloadId)
    (w : Workload) (h : ((ofStore store).run calls).get id = some w) :
    w.Authority ∧
    (w.episodes.length + 1 < 2 ^ 64 → w.generation.toU64.toNat = 1 + w.episodes.length) ∧
    (∀ c, ∃ w', (((ofStore store).run calls).step c).2.get id = some w' ∧
      (incarnates id c ∧ (((ofStore store).run calls).step c).1.outcome = .allow →
        w'.generation = next w.generation ∧ w'.episodes.length = w.episodes.length + 1) ∧
      (¬(incarnates id c ∧ (((ofStore store).run calls).step c).1.outcome = .allow) →
        w'.generation = w.generation ∧ w'.episodes.length = w.episodes.length)) ∧
    ∀ episode gen delta durable,
      (((ofStore store).run calls).step (.on id (.progress episode gen delta durable))).1.outcome =
        .allow →
      ∃ ep, w.findEpisode episode = some ep ∧
        ep.progress.completed.toNat + delta.toNat < 2 ^ 64 := by
  have ha := authority_of_run h
  set e := (ofStore store).run calls with he
  refine ⟨ha, fun hlt => ?_, fun c => ?_, fun episode gen delta durable ho => ?_⟩
  · rw [ha.fence, Nat.mod_eq_of_lt (by omega)]
  · rcases e.step_get_cases h c with ⟨hc, h'⟩ | ⟨r, w', rfl, h', hs⟩
    · have hn : ¬incarnates id c := by
        intro hi
        obtain ⟨r, hr⟩ := on_of_incarnates hi
        exact hc r hr
      exact ⟨w, h', fun hi => absurd hi.1 hn, fun _ => ⟨rfl, rfl⟩⟩
    · refine ⟨w', h', ?_⟩
      rw [incarnates_on id r e.episodeCounter w]
      exact ⟨fun hi => (hi.2 ▸ hs).incarnation (r.fencing ..) hi.1, hs.no_incarnation⟩
  · obtain ⟨hout, -⟩ := e.step_on_some h (.progress episode gen delta durable)
    have hs := w.apply_step none (.reportProgress episode gen delta durable)
    have hout' : (w.apply (.reportProgress episode gen delta durable) none).outcome = .allow :=
      hout.symm.trans ho
    rw [hout'] at hs
    exact ha.no_wrap hs

/-- Of three episodes the last one has authority: the first was migrated, the second lost. -/
theorem single_authority_relocated :
    ∃ w, ((ofStore (none : Option (MemoryStateStore .leftToRight))).run
        (relocate (.fromU64 1))).get (.fromU64 1) = some w ∧
      w.episodes.map (·.authoritative) = [false, false, true] ∧ w.Authority ∧
      w.generation.toU64.toNat = 4 := by
  obtain ⟨w, hw, hepisodes⟩ : ∃ w, ((ofStore (none : Option (MemoryStateStore .leftToRight))).run
      (relocate (.fromU64 1))).get (.fromU64 1) = some w ∧
      w.episodes.map (·.authoritative) = [false, false, true] := ⟨_, rfl, by decide⟩
  have hlen : w.episodes.length = 3 := by
    rw [← List.length_map (·.authoritative), hepisodes]
    rfl
  obtain ⟨hauthority, hfence, -⟩ :=
    single_authority none (relocate (.fromU64 1)) (.fromU64 1) w hw
  exact ⟨w, hw, hepisodes, hauthority, by rw [hfence (by omega), hlen]⟩

end WorkloadEngine

end WorkloadFabric
