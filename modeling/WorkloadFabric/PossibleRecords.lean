/-
Records of workloads that cannot be.

The decoder checks every field on its own.  What an engine makes of a workload is more than
that (`Workload.Possible`): one authority at most, no checkpoint ahead of the work, no final
cancellation of completed work, a state in which the audit trail ends.

* **`possible_records_iff`** — every workload of an engine is possible; an accepted record is
  decoded to a possible workload exactly when its bytes are consistent.
* **`impossible_record`** — a record of two authoritative episodes is accepted.
-/
import WorkloadFabric.ProgressAccounts
import WorkloadFabric.Moves
import WorkloadFabric.AuditTrail
import WorkloadFabric.EvaluationOrder

namespace WorkloadFabric

open Decoder FirstMatch

/-! ### Possible workloads -/

/-- The last move that the audit trail records as accepted. -/
def Workload.lastAllowed (w : Workload) : Option TransitionRecord :=
  w.history.reverse.find? fun r => isAllow r.outcome

/-- What holds of every workload that an engine can have. -/
structure Workload.Possible (w : Workload) : Prop where
  authority : w.episodes.countP (·.authoritative) ≤ 1
  checkpoint : w.progress.checkpointed ≤ w.progress.completed
  episodeCheckpoint : ∀ e ∈ w.episodes, e.progress.checkpointed ≤ e.progress.completed
  final : ¬(w.cancelledFinal = true ∧ w.state = .completed)
  trail : ∀ r, w.lastAllowed = some r → r.toState = w.state

namespace Workload

/-- The trail of a conforming workload ends in its state. -/
theorem AuditTrailConforms.lastAllowed {w : Workload} (h : AuditTrailConforms w)
    {r : TransitionRecord} (hr : w.lastAllowed = some r) : r.toState = w.state := by
  obtain ⟨hallow, post, pre, hsplit, hpost⟩ := List.find?_eq_some_iff_append.mp hr
  have hhistory : w.history = pre.reverse ++ r :: post.reverse := by
    rw [← w.history.reverse_reverse, hsplit, List.reverse_append, List.reverse_cons,
      List.append_assoc, List.singleton_append]
  have hnone : post.reverse.filter (fun r => isAllow r.outcome) = [] := by
    refine List.filter_eq_nil_iff.mpr fun r' hr' => ?_
    have hrefused := hpost r' (List.mem_reverse.mp hr')
    rwa [Bool.not_eq_true', ← Bool.not_eq_true] at hrefused
  have hpath := h.path
  rw [acceptedMoves, hhistory, List.filter_append,
    List.filter_cons_of_pos (p := fun r : TransitionRecord => isAllow r.outcome) hallow, hnone,
    List.map_append, List.map_singleton] at hpath
  obtain ⟨_, -, -, -, hlast⟩ := hpath.of_append
  exact hlast

/-- No episode is checkpointed ahead of its work. -/
def Paced (w : Workload) : Prop :=
  ∀ e ∈ w.episodes, e.progress.checkpointed ≤ e.progress.completed

theorem Quiet.paced {w w' : Workload} (h : Quiet w w') (hw : w.Paced) : w'.Paced := by
  intro e he
  have hmem : e.standing ∈ w.episodes.map Episode.standing :=
    h.standing ▸ List.mem_map_of_mem he
  obtain ⟨e', he', hs⟩ := List.mem_map.mp hmem
  have hp : e'.progress = e.progress := congrArg (·.2.2.2) hs
  rw [← hp]
  exact hw e' he'

/-- A new episode starts from the progress of the workload. -/
theorem Succeeds.paced {w w' : Workload} {ep : Episode} (h : Succeeds w w' ep) (hw : w.Paced)
    (hp : w.progress.checkpointed ≤ w.progress.completed) : w'.Paced := by
  intro e he
  rw [h.episodes] at he
  rcases List.mem_append.mp he with he | he
  · obtain ⟨e', he', rfl⟩ := List.mem_map.mp he
    exact hw e' he'
  · rw [List.mem_singleton.mp he, h.mirrors]
    exact hp

theorem creditEpisode_paced {e : Episode} (he : e.progress.checkpointed ≤ e.progress.completed)
    {delta : UInt64} (hfits : e.progress.completed.toNat + delta.toNat < 2 ^ 64) (durable : Bool) :
    (creditEpisode delta durable e).progress.checkpointed ≤
      (creditEpisode delta durable e).progress.completed := by
  rw [creditEpisode]
  dsimp only
  split
  · exact UInt64.le_refl _
  · rw [UInt64.le_iff_toNat_le] at he ⊢
    rw [UInt64.toNat_add, Nat.mod_eq_of_lt hfits]
    omega

theorem Paced.step {w w' : Workload} {op : WorkloadOp} {o : Outcome} (hw : w.Paced)
    (ha : w.Authority) (hp : w.progress.checkpointed ≤ w.progress.completed)
    (hs : Step w op o w') : w'.Paced := by
  rcases hs.standing_cases with hq | ⟨id, owner, ownerGen, adv, -, -, rfl⟩ |
    ⟨_, worker, boot, -, -, rfl⟩ | ⟨episode, _, delta, durable, ep, p, -, -, hf, hauth, -, hadv, rfl⟩
  · exact hq.paced hw
  · obtain ⟨ep, hsucc, -⟩ := w.started_succeeds id owner ownerGen adv
    exact hsucc.paced hw hp
  · obtain ⟨ep, hsucc, -⟩ := w.migrated_succeeds worker boot
    exact hsucc.paced hw hp
  · -- the report is credited to the last episode, whose sum cannot wrap
    obtain ⟨init, hinit, -, hids⟩ := ha.soleLast.find?_marked hf hauth
    have hid : (ep.id == episode) = true :=
      List.find?_some (p := fun e : Episode => e.id == episode) hf
    have hmem := List.mem_of_find?_eq_some hf
    have hfits := (Progress.advance_eq_some hadv).1
    rw [← (ha.mirror ep hmem hauth).1] at hfits
    intro e he
    rw [modifyEpisode, hinit] at he
    dsimp only at he
    rw [modifyFirst_append_singleton (p := fun e : Episode => e.id == episode) hid hids] at he
    rcases List.mem_append.mp he with he | he
    · exact hw e (hinit ▸ List.mem_append_left _ he)
    · rw [List.mem_singleton.mp he]
      exact creditEpisode_paced (hw ep hmem) hfits durable

end Workload

namespace WorkloadEngine

variable {σ : Type} [StateStore σ]

theorem paced_of_run {store : Option σ} {calls : List EngineCall} {id : WorkloadId}
    {w : Workload} (h : ((ofStore store).run calls).get id = some w) : w.Paced := by
  refine workload_induction (P := fun _ w => w.Paced) ?_ ?_ ?_ calls h
  · exact fun _ _ _ _ _ _ he => absurd he List.not_mem_nil
  · exact fun _ _ _ _ _ hw => hw
  · exact fun _ _ w hget hw =>
      hw.step (authority_of_run hget) (books_of_run hget).ordered (w.apply_step none _)

/-- **Every workload of an engine is possible.** -/
theorem possible_of_run {store : Option σ} {calls : List EngineCall} {id : WorkloadId}
    {w : Workload} (h : ((ofStore store).run calls).get id = some w) : w.Possible where
  authority := (authority_of_run h).soleLast.countP_le_one
  checkpoint := (books_of_run h).ordered
  episodeCheckpoint := paced_of_run h
  final := by
    rintro ⟨hfinal, hstate⟩
    rcases (governed_of_run h).final hfinal with hc | hc
    · rw [hstate] at hc
      exact absurd hc (by decide)
    · rw [hstate] at hc
      exact absurd hc (by decide)
  trail r := (reachable_of_run h).auditTrail.lastAllowed

end WorkloadEngine

/-! ### What the bytes of a record say -/

structure ProgressMarks where
  completed : UInt64
  checkpointed : UInt64

structure EpisodeMarks where
  progress : ProgressMarks
  authoritative : UInt8

structure TransitionMarks where
  toState : UInt8
  outcome : UInt8

/-- The bytes that tell whether the workload of a record can be. -/
structure RecordMarks where
  state : UInt8
  progress : ProgressMarks
  cancelledFinal : UInt8
  episodes : List EpisodeMarks
  history : List TransitionMarks

/-- The bytes fit together. -/
structure RecordMarks.Consistent (m : RecordMarks) : Prop where
  authority : m.episodes.countP (·.authoritative != 0) ≤ 1
  checkpoint : m.progress.checkpointed ≤ m.progress.completed
  episodeCheckpoint : ∀ e ∈ m.episodes, e.progress.checkpointed ≤ e.progress.completed
  final : ¬((m.cancelledFinal != 0) = true ∧ m.state = CodedEnum.code WorkloadState.completed)
  trail : ∀ t, m.history.reverse.find? (·.outcome == CodedEnum.code Outcome.allow) = some t →
    t.toState = m.state

namespace Reader

open Layout

def progressMarks : Reader ProgressMarks := do
  let completed ← u64
  seq [any (readEnum TotalKind 1), word64]
  let checkpointed ← u64
  seq [any (readEnum ProgressProvenance 3), word64, any flag]
  return ⟨completed, checkpointed⟩

def episodeMarks : Reader EpisodeMarks := do
  seq [word64, word64, any (readEnum EpisodeState 9), word64, word64, word64, word64, any handle,
    word64, word64, word64, word64, word64, word64]
  let progress ← progressMarks
  seq [Layout.text]
  let authoritative ← u8
  seq [any flag, any flag, any flag, any flag]
  return ⟨progress, authoritative⟩

def transitionMarks : Reader TransitionMarks := do
  seq [any (readEnum WorkloadState 25)]
  let toState ← u8
  seq [word64, word64, Layout.text]
  let outcome ← u8
  return ⟨toState, outcome⟩

def recordMarks : Reader RecordMarks := do
  seq [word64, word64, word64]
  let state ← u8
  seq [Layout.text, Layout.text, any policy, contractFields, dependencyFields, any priority]
  let progress ← progressMarks
  seq [word64, word64, word64, word32, word64, word64, word64, word64, any flag]
  let cancelledFinal ← u8
  seq [any flag, Layout.text, word64]
  let episodes ← list episodeMarks
  let history ← list transitionMarks
  return ⟨state, progress, cancelledFinal, episodes, history⟩

end Reader

/-! ### The bytes and the workload -/

def ProgressMarks.Of (m : ProgressMarks) (p : Progress) : Prop :=
  m.completed = p.completed ∧ m.checkpointed = p.checkpointed

def EpisodeMarks.Of (m : EpisodeMarks) (e : Episode) : Prop :=
  m.progress.Of e.progress ∧ (m.authoritative != 0) = e.authoritative

def TransitionMarks.Of (m : TransitionMarks) (r : TransitionRecord) : Prop :=
  m.toState = CodedEnum.code r.toState ∧ m.outcome = CodedEnum.code r.outcome

structure RecordMarks.Of (m : RecordMarks) (w : Workload) : Prop where
  state : m.state = CodedEnum.code w.state
  progress : m.progress.Of w.progress
  cancelledFinal : (m.cancelledFinal != 0) = w.cancelledFinal
  episodes : List.Forall₂ EpisodeMarks.Of m.episodes w.episodes
  history : List.Forall₂ TransitionMarks.Of m.history w.history

namespace Reader

theorem along_flag : Along (fun v b => (v != 0) = b) u8 flag := by
  rw [flag, ← bind_pure u8, bind_assoc]
  refine (Along.refl u8).bind fun v _ hv => ?_
  rw [← hv, pure_bind]
  exact .pure rfl

theorem along_enum {α : Type} [CodedEnum α] [CodedEnum.Dense α] {maxV : UInt8}
    (h : CodedEnum.maxCode α = maxV) :
    Along (fun v (a : α) => v = CodedEnum.code a) u8 (readEnum α maxV) := by
  intro s a rest hs
  rw [(faithful_enum h).eq_append hs]
  exact ⟨CodedEnum.code a, u8_cons _ _, rfl⟩

theorem along_list {γ α : Type} {R : γ → α → Prop} {p : Reader γ} {m : Reader α}
    (h : Along R p m) : Along (List.Forall₂ R) (list p) (list m) := by
  rw [list, list]
  refine (Along.refl u32).bind fun n _ hn => ?_
  rw [← hn]
  exact h.many _

theorem along_progress : Along ProgressMarks.Of progressMarks progress := by
  refine (Along.refl u64).bind fun _ _ hcompleted => ?_
  refine .skip rfl fun _ => .skip rfl fun _ => .skipped ?_
  refine (Along.refl u64).bind fun _ _ hcheckpointed => ?_
  refine .skip rfl fun _ => .skip rfl fun _ => .skip rfl fun _ => .skipped ?_
  exact .pure ⟨hcompleted, hcheckpointed⟩

theorem along_episode : Along EpisodeMarks.Of episodeMarks episode := by
  refine .skip any_ident fun _ => .skip any_ident fun _ => .skip rfl fun _ => ?_
  refine .skip any_ident fun _ => .skip any_ident fun _ => .skip any_ident fun _ => ?_
  refine .skip any_ident fun _ => .skip rfl fun _ => .skip any_ident fun _ => ?_
  refine .skip any_ident fun _ => .skip any_ident fun _ => .skip any_ident fun _ => ?_
  refine .skip any_ident fun _ => .skip any_ident fun _ => .skipped ?_
  refine along_progress.bind fun _ _ hprogress => ?_
  refine .skip rfl fun _ => .skipped (along_flag.bind fun _ _ hauthoritative => ?_)
  refine .skip rfl fun _ => .skip rfl fun _ => .skip rfl fun _ => .skip rfl fun _ => .skipped ?_
  exact .pure ⟨hprogress, hauthoritative⟩

theorem along_transitionRecord : Along TransitionMarks.Of transitionMarks transitionRecord := by
  refine .skip rfl fun _ => .skipped ((along_enum rfl).bind fun _ _ hstate => ?_)
  refine .skip any_ident fun _ => .skip rfl fun _ => .skip rfl fun _ => .skipped ?_
  exact (along_enum rfl).bind fun _ _ houtcome => .pure ⟨hstate, houtcome⟩

theorem along_workload : Along RecordMarks.Of recordMarks (workload .leftToRight) := by
  refine .skip any_ident fun _ => .skip any_ident fun _ => .skip any_ident fun _ => .skipped ?_
  refine (along_enum rfl).bind fun _ _ hstate => ?_
  refine .skip rfl fun _ => .skip rfl fun _ => .skip rfl fun _ => ?_
  refine .skip any_contract fun _ => .skip any_dependencies fun _ => .skip rfl fun _ => .skipped ?_
  refine along_progress.bind fun _ _ hprogress => ?_
  refine .skip any_ident fun _ => .skip any_ident fun _ => .skip any_ident fun _ => ?_
  refine .skip rfl fun _ => .skip any_ident fun _ => .skip any_ident fun _ => ?_
  refine .skip any_ident fun _ => .skip any_ident fun _ => .skip rfl fun _ => .skipped ?_
  refine along_flag.bind fun _ _ hfinal => ?_
  refine .skip rfl fun _ => .skip rfl fun _ => .skip any_ident fun _ => .skipped ?_
  refine (along_list along_episode).bind fun _ _ hepisodes => ?_
  refine (along_list along_transitionRecord).bind fun _ _ hhistory => ?_
  exact .pure ⟨hstate, hprogress, hfinal, hepisodes, hhistory⟩

end Reader

/-- The bytes are consistent exactly when the workload is possible. -/
theorem RecordMarks.Of.consistent_iff {m : RecordMarks} {w : Workload} (h : m.Of w) :
    m.Consistent ↔ w.Possible := by
  have hpaced (p : ProgressMarks) (q : Progress) (hpq : p.Of q) :
      p.checkpointed ≤ p.completed ↔ q.checkpointed ≤ q.completed := by
    rw [hpq.1, hpq.2]
  have hauthority : m.episodes.countP (·.authoritative != 0) =
      w.episodes.countP (·.authoritative) := countP_forall₂ h.episodes fun _ _ he => he.2
  have hepisodes := forall_mem_forall₂ h.episodes fun e e' he => hpaced e.progress e'.progress he.1
  have hstate (s : WorkloadState) : m.state = CodedEnum.code s ↔ w.state = s := by
    rw [h.state]
    exact CodedEnum.code_inj
  have hlast : Option.Rel TransitionMarks.Of
      (m.history.reverse.find? (·.outcome == CodedEnum.code Outcome.allow)) w.lastAllowed := by
    refine find?_forall₂ (List.forall₂_reverse_iff.mpr h.history) fun t r ht => ?_
    rw [Bool.eq_iff_iff, beq_iff_eq, ht.2, CodedEnum.code_inj, isAllow_iff]
  have htrail : (∀ t, m.history.reverse.find? (·.outcome == CodedEnum.code Outcome.allow) = some t →
      t.toState = m.state) ↔ ∀ r, w.lastAllowed = some r → r.toState = w.state := by
    generalize m.history.reverse.find? (·.outcome == CodedEnum.code Outcome.allow) = last at hlast ⊢
    generalize w.lastAllowed = last' at hlast ⊢
    cases hlast with
    | none => simp
    | some ht => simp only [Option.some.injEq, forall_eq', ht.1, h.state, CodedEnum.code_inj]
  have hfinal : (m.cancelledFinal != 0) = true ∧ m.state = CodedEnum.code WorkloadState.completed ↔
      w.cancelledFinal = true ∧ w.state = .completed := by rw [h.cancelledFinal, hstate]
  have hcheckpoint := hpaced m.progress w.progress h.progress
  constructor
  · intro hm
    exact ⟨hauthority ▸ hm.authority, hcheckpoint.mp hm.checkpoint,
      hepisodes.mp hm.episodeCheckpoint, hfinal.not.mp hm.final, htrail.mp hm.trail⟩
  · intro hw
    exact ⟨hauthority ▸ hw.authority, hcheckpoint.mpr hw.checkpoint,
      hepisodes.mpr hw.episodeCheckpoint, hfinal.not.mpr hw.final, htrail.mpr hw.trail⟩

/-! ### Accepted records -/

/-- An accepted record is one whose payload is decoded; the order of evaluation decides only
about words that these bytes do not tell of. -/
theorem accepted_iff {order : EvalOrder} {data payload rest : List UInt8} {w : Workload}
    (hframe : Reader.frame data = .ok (payload, rest)) :
    decodeWorkload order data = some (.allow, w) ↔
      ∃ w₀ rest', Workload.decode .leftToRight payload = .ok (w₀, rest') ∧ order.workload w₀ = w := by
  rw [decodeWorkload_order order hframe]
  rcases hdecode : Workload.decode .leftToRight payload with e | ⟨w₀, rest'⟩
  · constructor
    · intro h
      obtain ⟨_, hr⟩ := report_eq_allow h fun e' he => by
        cases he
        exact decode_cases.2 e hdecode
      cases hr
    · rintro ⟨_, _, h, -⟩
      cases h
  · constructor
    · intro h
      exact ⟨w₀, rest', rfl, (Prod.mk.inj (Option.some.inj h)).2⟩
    · rintro ⟨_, _, h, rfl⟩
      cases h
      rfl

/-- The bytes of a payload that is decoded. -/
theorem marks_of_decode {payload rest : List UInt8} {w : Workload}
    (h : Workload.decode .leftToRight payload = .ok (w, rest)) (order : EvalOrder) :
    ∃ m, Reader.recordMarks payload = .ok (m, []) ∧ m.Of (order.workload w) := by
  obtain ⟨m, hm, hof⟩ := Reader.along_workload payload w [] (decode_cases.1 w rest h)
  exact ⟨m, hm, hof.state, hof.progress, hof.cancelledFinal, hof.episodes, hof.history⟩

/-- **The workloads of an engine are possible, and a record is decoded to a possible workload
exactly when it is not well formed or its bytes are consistent.** -/
theorem possible_records_iff {σ : Type} [StateStore σ] (store : Option σ) (order : EvalOrder)
    (data : List UInt8) :
    (∀ (calls : List EngineCall) (id : WorkloadId) (w : Workload),
      ((WorkloadEngine.ofStore store).run calls).get id = some w → w.Possible) ∧
    ((∀ w, decodeWorkload order data = some (.allow, w) → w.Possible) ↔
      ∀ payload rest r m rest', Reader.frame data = .ok (payload, rest) →
        WellFormed payload r → Reader.recordMarks payload = .ok (m, rest') → m.Consistent) := by
  refine ⟨fun _ _ _ => WorkloadEngine.possible_of_run, ?_, ?_⟩
  · intro h payload rest r m rest' hframe hwell hmarks
    obtain ⟨w, _, hdecode, -⟩ := decoded_iff.mpr hwell
    obtain ⟨m', hm', hof⟩ := marks_of_decode hdecode order
    obtain ⟨rfl, -⟩ := Prod.mk.inj (Except.ok.inj (hmarks.symm.trans hm'))
    exact hof.consistent_iff.mpr (h _ ((accepted_iff hframe).mpr ⟨w, _, hdecode, rfl⟩))
  · intro h w haccepted
    obtain ⟨payload, rest, hframe, -⟩ := accepted_cases haccepted
    obtain ⟨w₀, rest', hdecode, rfl⟩ := (accepted_iff hframe).mp haccepted
    obtain ⟨m, hm, hof⟩ := marks_of_decode hdecode order
    have hwell := decoded_iff.mp ⟨w₀, rest', hdecode, rfl⟩
    exact hof.consistent_iff.mp (h payload rest _ m [] hframe hwell hm)

/-- A launched workload. -/
theorem possible_records_launched :
    (((WorkloadEngine.ofStore (none : Option (MemoryStateStore .leftToRight))).run
      (WorkloadEngine.launch (.fromU64 1) {})).snapshot (.fromU64 1)).Possible :=
  (possible_records_iff (none : Option (MemoryStateStore .leftToRight)) .leftToRight []).1
    (WorkloadEngine.launch (.fromU64 1) {}) (.fromU64 1) _ rfl

/-- Two episodes of this workload are authoritative. -/
def twoAuthorities : Workload :=
  { Workload.create (.fromU64 1) (text "w") (text "job") with
    episodes := [{ authoritative := true }, { authoritative := true }] }

theorem impossible_record : ¬∀ (order : EvalOrder) (data : List UInt8) (w : Workload),
    decodeWorkload order data = some (.allow, w) → w.Possible := by
  intro h
  have hfit : twoAuthorities.SizesFit :=
    ⟨by decide, by decide, by decide, by decide, by decide, by decide⟩
  have hload : twoAuthorities.Loadable := by
    refine ⟨⟨fun _ hr => absurd hr List.not_mem_nil, fun _ hb => absurd hb List.not_mem_nil⟩, ?_, ?_,
      ?_⟩
    all_goals decide
  have hread := (decode_encode .leftToRight hfit rfl (by decide +kernel)).1 hload
  have hone := (h .leftToRight _ _ hread).authority
  exact absurd hone (by decide)

end WorkloadFabric
