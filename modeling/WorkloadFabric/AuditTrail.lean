/-
The audit trail of a workload tells its whole story.

`Shadows w L` relates a workload to an audited machine (`Ledger`) whose fence and
revision are unbounded; the workload holds them modulo `2 ^ 64`.  Every step of
a workload is simulated by steps of the machine (`step_follows`), so whatever
the machine's trail satisfies, the workload's `history` does
(`Reachable.auditTrail`).
-/
import WorkloadFabric.Ledger
import WorkloadFabric.EngineRuns

namespace WorkloadFabric

/-- The edges of the transition table. -/
def edge (s t : WorkloadState) : Prop := canTransition s t = true

/-- A record is what the entry became in 64 bits. -/
structure TransitionRecord.Matches (r : TransitionRecord) (e : Ledger.Entry WorkloadState) :
    Prop where
  source : e.source = r.fromState
  target : e.target = r.toState
  accepted : e.accepted = isAllow r.outcome
  fence : r.generation.toU64.toNat = e.fence % 2 ^ 64

/-- The workload is what the audited machine became in 64 bits. -/
structure Workload.Shadows (w : Workload) (L : Ledger WorkloadState) : Prop where
  state : L.state = w.state
  fence : w.generation.toU64.toNat = L.fence % 2 ^ 64
  revision : w.revision.toU64.toNat = L.revision % 2 ^ 64
  entries : List.Forall₂ TransitionRecord.Matches w.history L.entries

namespace Workload

/-- Steps of the audited machine lead from what `w` shadows to what `w'` does. -/
def Follows (w w' : Workload) : Prop :=
  ∀ L, Shadows w L → ∃ L', Relation.ReflTransGen (Ledger.Step edge) L L' ∧ Shadows w' L'

namespace Follows

variable {w w' w'' : Workload}

theorem trans (h : Follows w w') (h' : Follows w' w'') : Follows w w'' := by
  intro L hL
  obtain ⟨L', hs, hL'⟩ := h L hL
  obtain ⟨L'', hs', hL''⟩ := h' L' hL'
  exact ⟨L'', hs.trans hs', hL''⟩

/-- What touches none of the audited fields is no step. -/
theorem of_frame (hs : w'.state = w.state) (hg : w'.generation = w.generation)
    (hr : w'.revision = w.revision) (hh : w'.history = w.history) : Follows w w' := by
  intro L hL
  refine ⟨L, .refl, ?_, ?_, ?_, ?_⟩
  · rw [hs]
    exact hL.state
  · rw [hg]
    exact hL.fence
  · rw [hr]
    exact hL.revision
  · rw [hh]
    exact hL.entries

protected theorem refl (w : Workload) : Follows w w := .of_frame rfl rfl rfl rfl

end Follows

/-! ### The two things that write the trail -/

theorem shadows_record {w : Workload} {L : Ledger WorkloadState} (h : Shadows w L)
    (s t : WorkloadState) (reason : Text) (o : Outcome) :
    Shadows (w.record s t reason o) (L.log s t (isAllow o)) where
  state := h.state
  fence := h.fence
  revision := by
    have := h.revision
    simp only [record, Ledger.log, next_toU64, UInt64.toNat_add, UInt64.toNat_one]
    omega
  entries := List.rel_append h.entries (.cons ⟨rfl, rfl, rfl, h.fence⟩ .nil)

theorem follows_record (w : Workload) (s t : WorkloadState) (reason : Text) {o : Outcome}
    (ho : o ≠ .allow) : Follows w (w.record s t reason o) := by
  intro L hL
  have h := shadows_record hL s t reason o
  have hf : isAllow o = false := by
    rw [Bool.eq_false_iff]
    exact fun hc => ho ((isAllow_iff o).mp hc)
  rw [hf] at h
  exact ⟨_, .single (.refuse s t), h⟩

theorem shadows_moved {w : Workload} {L : Ledger WorkloadState} (h : Shadows w L)
    {t : WorkloadState} (ht : w.state ≠ t) (reason : Text) :
    Shadows (w.moved t reason) (L.moveTo t) := by
  have h' := shadows_record h w.state t reason .allow
  rw [moved, if_neg ht, Ledger.moveTo, h.state]
  exact ⟨rfl, h'.fence, h'.revision, h'.entries⟩

/-- A link that is not a no-op follows an edge. -/
theorem Admits.edge {w : Workload} {t : WorkloadState} (h : w.Admits t) (ht : w.state ≠ t) :
    edge w.state t := (h.resolve_left ht).2.1

theorem follows_moved {w : Workload} {t : WorkloadState} (h : w.Admits t) (reason : Text) :
    Follows w (w.moved t reason) := by
  by_cases ht : w.state = t
  · rw [moved_self ht]
    exact .refl w
  · intro L hL
    refine ⟨_, .single (.move ?_), shadows_moved hL ht reason⟩
    rw [hL.state]
    exact h.edge ht

/-- `w'` differs from `w` only in what neither the trail nor admission reads. -/
structure UnauditedEdit (w w' : Workload) : Prop where
  state : w'.state = w.state
  policy : w'.policy = w.policy
  generation : w'.generation = w.generation
  revision : w'.revision = w.revision
  history : w'.history = w.history

theorem UnauditedEdit.follows {w w' : Workload} (h : UnauditedEdit w w') : Follows w w' :=
  .of_frame h.state h.generation h.revision h.history

/-- An operation writes counters and flags, then asks for its transition. -/
theorem UnauditedEdit.follows_moved {w w' : Workload} (h : UnauditedEdit w w')
    {t : WorkloadState} (ha : w.Admits t) (reason : Text) : Follows w (w'.moved t reason) :=
  h.follows.trans (Workload.follows_moved ((admits_congr h.state h.policy t).mpr ha) reason)

theorem UnauditedEdit.follows_record {w w' : Workload} (h : UnauditedEdit w w')
    (s t : WorkloadState) (reason : Text) {o : Outcome} (ho : o ≠ .allow) :
    Follows w (w'.record s t reason o) :=
  h.follows.trans (Workload.follows_record w' s t reason ho)

section Edits

variable (w : Workload)

theorem unaudited_claimCompletion : UnauditedEdit w w.claimCompletion := ⟨rfl, rfl, rfl, rfl, rfl⟩

theorem unaudited_countCompletion : UnauditedEdit w w.countCompletion := ⟨rfl, rfl, rfl, rfl, rfl⟩

theorem unaudited_flagCancellation : UnauditedEdit w w.flagCancellation :=
  ⟨rfl, rfl, rfl, rfl, rfl⟩

theorem unaudited_flagCancelledFinal : UnauditedEdit w w.flagCancelledFinal :=
  ⟨rfl, rfl, rfl, rfl, rfl⟩

theorem unaudited_takeRestartSlot (reason : Text) : UnauditedEdit w (w.takeRestartSlot reason) :=
  ⟨rfl, rfl, rfl, rfl, rfl⟩

theorem unaudited_countMigration : UnauditedEdit w w.countMigration := ⟨rfl, rfl, rfl, rfl, rfl⟩

end Edits

/-! ### Episodes advance the fence -/

theorem shadows_next {w w' : Workload} {L : Ledger WorkloadState} (h : Shadows w L)
    (hs : w'.state = w.state) (hg : w'.generation = next w.generation)
    (hr : w'.revision = w.revision) (hh : w'.history = w.history) : Shadows w' L.advance where
  state := by
    rw [hs]
    exact h.state
  fence := by
    have := h.fence
    rw [hg]
    simp only [Ledger.advance, next_toU64, UInt64.toNat_add, UInt64.toNat_one]
    omega
  revision := by
    rw [hr]
    exact h.revision
  entries := by
    rw [hh]
    exact h.entries

theorem follows_started {w : Workload} (he : resumeEligible w.state = true)
    (id : ExecutionEpisodeId) (owner : OwnerId) (ownerGen : OwnerGeneration) (adv : Bool) :
    Follows w (w.started id owner ownerGen adv) := by
  refine (follows_moved (admits_ready_of_eligible he) (text "resume eligible")).trans ?_
  set w₁ := w.moved .ready (text "resume eligible") with hw₁
  have hs : w₁.state = .ready := moved_state ..
  have hne : w₁.state ≠ .starting := by simp [hs]
  have ha : w₁.Admits .starting := starts hs
  -- only an advancing start is a step of its own; the other is a plain move
  cases adv with
  | false => exact (follows_moved ha (text "start episode")).trans (.of_frame rfl rfl rfl rfl)
  | true =>
    intro L hL
    refine ⟨_, .single (.moveAdvance ?_),
      shadows_next (shadows_moved hL hne (text "start episode")) rfl rfl rfl rfl⟩
    rw [hL.state]
    exact ha.edge hne

theorem follows_migrated {w : Workload} (hs : w.state = .migrationPending ∨ w.state = .migrating)
    (worker : WorkerId) (boot : WorkerBootId) : Follows w (w.migrated worker boot) := by
  refine (follows_moved (migrating hs) (text "migrating")).trans ?_
  set w₁ := w.moved .migrating (text "migrating") with hw₁
  have hs₁ : w₁.state = .migrating := moved_state ..
  -- the fence advances between the two moves, so the second carries the new one
  intro L hL
  have hL' : Shadows (w₁.handOver worker boot) L.advance := shadows_next hL rfl rfl rfl rfl
  have hne : (w₁.handOver worker boot).state ≠ .running := by
    rw [show (w₁.handOver worker boot).state = .migrating from hs₁]
    simp
  refine ⟨_, .single (.advanceMove ?_), shadows_moved hL' hne (text "migration committed")⟩
  rw [hL.state]
  exact (migrates hs₁).edge hne

/-! ### Every step -/

/-- **A step of the workload is simulated by the audited machine.** -/
theorem step_follows {w w' : Workload} {op : WorkloadOp} {o : Outcome} (h : Step w op o w') :
    Follows w w' := by
  cases h with
  | rejected => exact .refl w
  | transition _ ha => exact follows_moved ha _
  | transitionRefused _ ho => exact follows_record w _ _ _ ho
  | settle _ _ ha => exact follows_moved ha _
  | settleRefused _ _ _ ho => exact follows_record w _ _ _ ho
  | start _ he => exact follows_started he _ _ _ _
  | @dispatch episode worker boot =>
    have he : UnauditedEdit w (w.modifyEpisode episode (bindWorker worker boot)) :=
      ⟨rfl, rfl, rfl, rfl, rfl⟩
    split
    case isTrue hs =>
      exact he.follows_moved (runs hs) _
    case isFalse => exact he.follows
  | progress => exact .of_frame rfl rfl rfl rfl
  | complete _ _ ha =>
    have he := w.unaudited_claimCompletion
    exact (he.follows_moved ha _).trans (follows_moved (completes (moved_state ..)) _)
  | completeRefused _ _ _ ho =>
    have he := w.unaudited_claimCompletion
    exact he.follows_record _ _ _ ho
  | finalize _ _ _ ha =>
    have he := w.unaudited_countCompletion
    exact (he.follows_moved ha _).trans (follows_moved (completes (moved_state ..)) _)
  | finalizeRefused _ _ _ _ ho =>
    have he := w.unaudited_countCompletion
    exact he.follows_record _ _ _ ho
  | cancelAgain => exact .of_frame rfl rfl rfl rfl
  | cancel _ _ _ ha =>
    have he := w.unaudited_flagCancellation
    exact he.follows_moved ha _
  | cancelRefused _ _ _ _ ho =>
    have he := w.unaudited_flagCancellation
    exact he.follows_record _ _ _ ho
  | cancelledAgain => exact .of_frame rfl rfl rfl rfl
  | cancelled _ _ ha =>
    have he := w.unaudited_flagCancelledFinal
    refine (he.follows_moved ha (text "cancelling")).trans ?_
    set w₁ := w.flagCancelledFinal.moved .cancellationRequested (text "cancelling")
    have ha₁ : w₁.Admits .cancelling := cancelling (moved_state ..)
    exact (follows_moved ha₁ _).trans (follows_moved (cancels (moved_state ..)) _)
  | cancelledRefused _ _ _ ho =>
    have he := w.unaudited_flagCancelledFinal
    exact he.follows_record _ _ _ ho
  | lost =>
    have he : UnauditedEdit w (w.modifyCurrent loseWorker) := ⟨rfl, rfl, rfl, rfl, rfl⟩
    split
    case isTrue hs => exact he.follows_moved (recovers hs) _
    case isFalse => exact he.follows
  | markCompleted => exact .of_frame rfl rfl rfl rfl
  | markFailed => exact .of_frame rfl rfl rfl rfl
  | @restart _ reason _ _ ha =>
    have he := w.unaudited_takeRestartSlot reason
    exact he.follows_moved ha _
  | @restartRefused _ reason _ _ _ _ ho =>
    have he := w.unaudited_takeRestartSlot reason
    exact he.follows_record _ _ _ ho
  | suspend _ _ _ ha => exact follows_moved ha _
  | suspendRefused _ _ _ _ ho => exact follows_record w _ _ _ ho
  | suspendedAgain => exact .refl w
  | suspended _ hs =>
    have he : UnauditedEdit w (w.modifyCurrent suspendEpisode) := ⟨rfl, rfl, rfl, rfl, rfl⟩
    refine (he.follows_moved (suspending hs) (text "suspending")).trans ?_
    exact follows_moved (suspends (moved_state ..)) _
  | resume _ hs => exact follows_moved (resumes hs) _
  | migrate _ _ ha =>
    have he := w.unaudited_countMigration
    exact he.follows_moved ha _
  | migrateRefused _ _ _ ho =>
    have he := w.unaudited_countMigration
    exact he.follows_record _ _ _ ho
  | commitMigration _ hs => exact follows_migrated hs _ _
  | setPolicy => exact .of_frame rfl rfl rfl rfl
  | define => exact .of_frame rfl rfl rfl rfl
  | setStatus => exact .of_frame rfl rfl rfl rfl
  | addRequirement => exact .of_frame rfl rfl rfl rfl
  | applyGrant => exact .of_frame rfl rfl rfl rfl

/-- A fresh workload shadows a fresh machine. -/
theorem shadows_create (id : WorkloadId) (name intent : Text) :
    Shadows (create id name intent) (.fresh .created) := ⟨rfl, rfl, rfl, .nil⟩

/-- Every reachable workload shadows a machine whose trail is truthful. -/
theorem Reachable.shadows {w : Workload} (h : Reachable w) :
    ∃ L, L.Conforms edge .created ∧ Shadows w L := by
  -- every step of the workload is some steps of the machine
  have hrun : ∃ L, Relation.ReflTransGen (Ledger.Step edge) (.fresh .created) L ∧ Shadows w L := by
    refine h.induction (P := fun w => ∃ L, Relation.ReflTransGen (Ledger.Step edge)
      (.fresh .created) L ∧ Shadows w L) (fun id name intent => ?_) fun hw hstep => ?_
    · exact ⟨_, .refl, shadows_create id name intent⟩
    · obtain ⟨L, hs, hL⟩ := hw
      obtain ⟨L', hs', hL'⟩ := step_follows hstep L hL
      exact ⟨L', hs.trans hs', hL'⟩
  obtain ⟨L, hs, hL⟩ := hrun
  exact ⟨L, Ledger.conforms_of_steps hs, hL⟩

/-! ### The trail of a workload -/

/-- The moves the trail records as accepted, in order. -/
def acceptedMoves (w : Workload) : List (WorkloadState × WorkloadState) :=
  (w.history.filter fun r => isAllow r.outcome).map fun r => (r.fromState, r.toState)

/-- The audit trail conforms to the transition table. -/
structure AuditTrailConforms (w : Workload) : Prop where
  /-- the accepted moves are a path of edges from CREATED to the state -/
  path : IsPath edge .created w.acceptedMoves w.state
  /-- nothing is accepted after a move into a terminal state -/
  closed : ∀ pre r post, w.history = pre ++ r :: post → r.outcome = .allow →
    isTerminal r.toState = true → (∀ r' ∈ post, r'.outcome ≠ .allow) ∧ w.state = r.toState
  /-- one revision a record, as long as 64 bits can hold it -/
  revision : w.history.length + 1 < 2 ^ 64 → w.revision.toU64.toNat = 1 + w.history.length
  /-- the recorded generations never decrease -/
  sorted : w.history.length + 1 < 2 ^ 64 →
    (w.history.map fun r => r.generation.toU64.toNat).Pairwise (· ≤ ·)
  /-- and never exceed the current one -/
  bounded : w.history.length + 1 < 2 ^ 64 →
    ∀ r ∈ w.history, r.generation.toU64.toNat ≤ w.generation.toU64.toNat

/-- Both trails record the same accepted moves. -/
theorem Shadows.moves_eq {w : Workload} {L : Ledger WorkloadState} (h : Shadows w L) :
    L.moves = w.acceptedMoves := by
  -- the two trails match record by record, so the induction is on the matching
  have hmoves : ∀ {rs : List TransitionRecord} {es : List (Ledger.Entry WorkloadState)},
      List.Forall₂ TransitionRecord.Matches rs es →
      (es.filter (·.accepted)).map (fun e => (e.source, e.target)) =
        (rs.filter fun r => isAllow r.outcome).map fun r => (r.fromState, r.toState) := by
    intro rs es hrs
    induction hrs with
    | nil => rfl
    | @cons r e rs es hr _ ih =>
      rw [List.filter_cons, List.filter_cons, hr.accepted]
      split
      · rw [List.map_cons, List.map_cons, ih, hr.source, hr.target]
      · exact ih
  exact hmoves h.entries

/-- As long as no fence wraps, both trails carry the same fences. -/
theorem Shadows.fences_eq {w : Workload} {L : Ledger WorkloadState} (h : Shadows w L)
    (hL : ∀ e ∈ L.entries, e.fence < 2 ^ 64) :
    w.history.map (fun r => r.generation.toU64.toNat) = L.entries.map (·.fence) := by
  have hfences : ∀ {rs : List TransitionRecord} {es : List (Ledger.Entry WorkloadState)},
      List.Forall₂ TransitionRecord.Matches rs es → (∀ e ∈ es, e.fence < 2 ^ 64) →
      rs.map (fun r => r.generation.toU64.toNat) = es.map (·.fence) := by
    intro rs es hrs
    induction hrs with
    | nil => exact fun _ => rfl
    | @cons r e rs es hr _ ih =>
      intro hlt
      rw [List.map_cons, List.map_cons, ih fun e' he' => hlt e' (List.mem_cons_of_mem _ he'),
        hr.fence, Nat.mod_eq_of_lt (hlt e List.mem_cons_self)]
  exact hfences h.entries hL

/-- After an accepted move into a terminal state nothing is accepted. -/
theorem closed_of_path {w : Workload} (hpath : IsPath edge .created w.acceptedMoves w.state)
    {pre post : List TransitionRecord} {r : TransitionRecord} (hw : w.history = pre ++ r :: post)
    (hr : r.outcome = .allow) (ht : isTerminal r.toState = true) :
    (∀ r' ∈ post, r'.outcome ≠ .allow) ∧ w.state = r.toState := by
  have hmoves : w.acceptedMoves = (pre.filter fun r => isAllow r.outcome).map
        (fun r => (r.fromState, r.toState)) ++ (r.fromState, r.toState) ::
      (post.filter fun r => isAllow r.outcome).map fun r => (r.fromState, r.toState) := by
    rw [acceptedMoves, hw, List.filter_append, List.map_append, List.filter_cons,
      if_pos ((isAllow_iff _).mpr hr), List.map_cons]
  rw [hmoves] at hpath
  -- the table has no edge out of a terminal state
  have hdead : ∀ s, ¬edge r.toState s := fun s he => by
    rw [edge, isTerminal_no_exit ht] at he
    exact Bool.false_ne_true he
  have hpost := hpath.eq_nil_of_dead_end hdead
  refine ⟨fun r' hr' hallow => ?_, ?_⟩
  · have hmem : r' ∈ post.filter fun r => isAllow r.outcome :=
      List.mem_filter.mpr ⟨hr', (isAllow_iff _).mpr hallow⟩
    rw [List.map_eq_nil_iff] at hpost
    rw [hpost] at hmem
    exact absurd hmem List.not_mem_nil
  · rw [hpost] at hpath
    obtain ⟨c, -, h⟩ := hpath.of_append
    exact h.2.2.symm

/-- **The audit trail of a reachable workload conforms.** -/
theorem Reachable.auditTrail {w : Workload} (h : Reachable w) : AuditTrailConforms w := by
  obtain ⟨L, hL, hw⟩ := h.shadows
  have hpath : IsPath edge .created w.acceptedMoves w.state := by
    rw [← hw.moves_eq, ← hw.state]
    exact hL.path
  have hlen : w.history.length = L.entries.length := hw.entries.length_eq
  have hfence := hL.fence_le
  have hrev := hw.revision
  rw [hL.revision_eq, ← hlen] at hrev
  -- below the bound nothing wraps
  have hfences (hb : w.history.length + 1 < 2 ^ 64) := hw.fences_eq fun e he =>
    lt_of_le_of_lt (hL.le_fence e he) (by omega)
  refine ⟨hpath, fun pre r post => closed_of_path hpath, fun hb => ?_, fun hb => ?_, fun hb => ?_⟩
  · rw [hrev, Nat.mod_eq_of_lt (by omega)]
  · rw [hfences hb]
    exact hL.sorted
  · intro r hr
    have hmem : r.generation.toU64.toNat ∈ L.entries.map (·.fence) := by
      rw [← hfences hb]
      exact List.mem_map_of_mem hr
    rw [hw.fence, Nat.mod_eq_of_lt (by omega)]
    exact hL.fences_le _ hmem

/-- **The audit trail conforms after every run**: of the lifecycle operations of one
workload, and of the calls of an engine with any lifecycle operations on the
workload it registered. -/
theorem audit_trail_conforms :
    (∀ (id : WorkloadId) (name intent : Text) (calls : List Call),
      AuditTrailConforms ((create id name intent).run calls)) ∧
    ∀ {σ : Type} [StateStore σ] (store : Option σ) (calls : List EngineCall) (id : WorkloadId)
      (w : Workload), ((WorkloadEngine.ofStore store).run calls).get id = some w →
        ∀ more : List Call, AuditTrailConforms (w.run more) :=
  ⟨fun id name intent calls => ((reachable_create id name intent).run calls).auditTrail,
    fun _ _ _ _ h more => ((WorkloadEngine.reachable_of_run h).run more).auditTrail⟩

/-- A launched workload, finalized too early. -/
theorem audit_trail_conforms_launched :
    AuditTrailConforms
      ((((WorkloadEngine.ofStore (none : Option (MemoryStateStore .leftToRight))).run
        (WorkloadEngine.launch (.fromU64 1) {})).snapshot (.fromU64 1)).run
          [(.commitCompletion (.fromU64 2), none)]) :=
  audit_trail_conforms.2 (σ := MemoryStateStore .leftToRight) none
    (WorkloadEngine.launch (.fromU64 1) {}) (.fromU64 1) _ rfl _

end Workload

end WorkloadFabric
