/-
Which rejections leave a workload as it was.

Outside the audit trail (`history` and `revision`, erased by `eraseAudit`) most
operations change nothing when they are rejected.  Six of them write a counter
or a flag first and are then turned away by the transition they ask for;
`LateRejected` says when.  `rejection_atomic_iff`: a rejected operation leaves
the workload as it was exactly when it is not one of these.
-/
import WorkloadFabric.Lifecycle

namespace WorkloadFabric

namespace Workload

/-- Everything but the audit fields. -/
def eraseAudit (w : Workload) : Workload := { w with history := [], revision := {} }

@[simp] theorem eraseAudit_record (w : Workload) (s t : WorkloadState) (reason : Text)
    (o : Outcome) : (w.record s t reason o).eraseAudit = w.eraseAudit := rfl

/-- The operation passes its guards, writes a counter or a flag, and is then
refused the transition it asks for. -/
def LateRejected (w : Workload) : WorkloadOp → Prop
  | .commitCompletion g => w.Granted (.commitCompletion g) ∧ ¬w.Admits .completing
  | .finalize g => w.Granted (.finalize g) ∧ ¬w.Admits .completing
  | .requestCancellationWorkloadScope g =>
    w.Granted (.requestCancellationWorkloadScope g) ∧ isCancelling w.state = false ∧
      ¬w.Admits .cancellationRequested ∧ w.cancellationRequested = false
  | .completeCancellation g =>
    w.Granted (.completeCancellation g) ∧ w.state ≠ .cancelled ∧
      ¬w.Admits .cancellationRequested ∧
      ¬(w.cancelledFinal = true ∧ w.cancellationRequested = true)
  | .planRestart g reason => w.Granted (.planRestart g reason) ∧ ¬w.Admits .restartPending
  | .requestMigration g => w.Granted (.requestMigration g) ∧ ¬w.Admits .migrationPending
  | _ => False

/-! ### What the late writes leave behind -/

section LateWrites

variable (w : Workload)

theorem claimCompletion_visible : w.claimCompletion.eraseAudit ≠ w.eraseAudit := fun h =>
  next_ne w.completionGen (congrArg Workload.completionGen h)

theorem countCompletion_visible : w.countCompletion.eraseAudit ≠ w.eraseAudit := fun h =>
  next_ne w.completionGen (congrArg Workload.completionGen h)

theorem takeRestartSlot_visible (reason : Text) :
    (w.takeRestartSlot reason).eraseAudit ≠ w.eraseAudit := fun h =>
  next_ne w.restartGen (congrArg Workload.restartGen h)

theorem countMigration_visible : w.countMigration.eraseAudit ≠ w.eraseAudit := fun h =>
  next_ne w.migrationGen (congrArg Workload.migrationGen h)

/-- Raising a flag shows unless the flag was up already. -/
theorem flagCancellation_visible_iff :
    w.flagCancellation.eraseAudit = w.eraseAudit ↔ w.cancellationRequested = true := by
  constructor
  · intro h
    exact (congrArg Workload.cancellationRequested h).symm
  · intro h
    rw [flagCancellation, ← h]

theorem flagCancelledFinal_visible_iff :
    w.flagCancelledFinal.eraseAudit = w.eraseAudit ↔
      w.cancelledFinal = true ∧ w.cancellationRequested = true := by
  constructor
  · intro h
    exact ⟨(congrArg Workload.cancelledFinal h).symm,
      (congrArg Workload.cancellationRequested h).symm⟩
  · intro ⟨h, h'⟩
    have hw : w.flagCancelledFinal = w := by
      rw [flagCancelledFinal]
      cases w
      simp only at h h'
      rw [h, h']
    rw [hw]

end LateWrites

/-! ### Rejections -/

/-- **A rejected step is visible exactly when the rejection is late.** -/
theorem Step.eraseAudit_eq_iff {w w' : Workload} {op : WorkloadOp} {o : Outcome}
    (h : Step w op o w') (ho : o ≠ .allow) :
    w'.eraseAudit = w.eraseAudit ↔ ¬w.LateRejected op := by
  cases h with
  -- stopped by a guard, or refused with nothing but the record written
  | rejected _ hn =>
    refine iff_of_true rfl fun hl => hn ?_
    cases op <;> first | exact hl.1 | exact hl.elim
  | transitionRefused => exact iff_of_true rfl not_false
  | settleRefused => exact iff_of_true rfl not_false
  | suspendRefused => exact iff_of_true rfl not_false
  -- a counter was raised, which shows
  | completeRefused hg hc hn =>
    exact iff_of_false w.claimCompletion_visible (not_not.mpr ⟨⟨hg, hc⟩, hn⟩)
  | finalizeRefused hg hk ht hn =>
    exact iff_of_false w.countCompletion_visible (not_not.mpr ⟨⟨hg, hk, ht⟩, hn⟩)
  -- a flag shows unless it was up
  | cancelRefused hg ht hs hn =>
    rw [eraseAudit_record, flagCancellation_visible_iff]
    constructor
    · intro hf hl
      exact absurd hl.2.2.2 (by rw [hf]; decide)
    · intro hl
      by_contra hf
      exact hl ⟨⟨hg, ht⟩, hs, hn, by simpa using hf⟩
  | cancelledRefused hg ht hn =>
    have hs : w.state ≠ .cancelled := by
      intro hs
      rw [hs] at ht
      exact absurd ht (by decide)
    rw [eraseAudit_record, flagCancelledFinal_visible_iff]
    constructor
    · intro hf hl
      exact hl.2.2.2 hf
    · intro hl
      by_contra hf
      exact hl ⟨⟨hg, .inr ht⟩, hs, hn, hf⟩
  | restartRefused hg hr hn =>
    exact iff_of_false (w.takeRestartSlot_visible _) (not_not.mpr ⟨⟨hg, hr⟩, hn⟩)
  | migrateRefused hg hm hn =>
    exact iff_of_false w.countMigration_visible (not_not.mpr ⟨⟨hg, hm⟩, hn⟩)
  | _ => exact absurd rfl ho

/-- A late rejection is a rejection. -/
theorem Step.not_late_of_allow {w w' : Workload} {op : WorkloadOp} (h : Step w op .allow w') :
    ¬w.LateRejected op := by
  cases h with
  | rejected ho => exact absurd rfl ho
  | transitionRefused _ ho => exact absurd rfl ho
  | settleRefused _ _ _ ho => exact absurd rfl ho
  | completeRefused _ _ _ ho => exact absurd rfl ho
  | finalizeRefused _ _ _ _ ho => exact absurd rfl ho
  | cancelRefused _ _ _ _ ho => exact absurd rfl ho
  | cancelledRefused _ _ _ ho => exact absurd rfl ho
  | restartRefused _ _ _ ho => exact absurd rfl ho
  | suspendRefused _ _ _ _ ho => exact absurd rfl ho
  | migrateRefused _ _ _ ho => exact absurd rfl ho
  | complete _ _ ha => exact fun hl => hl.2 ha
  | finalize _ _ _ ha => exact fun hl => hl.2 ha
  | cancelAgain _ hs =>
    intro hl
    exact absurd hl.2.1 (by rw [hs]; decide)
  | cancel _ _ _ ha => exact fun hl => hl.2.2.1 ha
  | cancelledAgain _ hs => exact fun hl => hl.2.1 hs
  | cancelled _ _ ha => exact fun hl => hl.2.2.1 ha
  | restart _ _ ha => exact fun hl => hl.2 ha
  | migrate _ _ ha => exact fun hl => hl.2 ha
  | _ => exact not_false

/-- **An operation is atomic on rejection exactly when it is not rejected
late.** -/
theorem rejection_atomic_iff (w : Workload) (op : WorkloadOp) :
    (∀ ex, (w.apply op ex).outcome ≠ .allow →
      (w.apply op ex).workload.eraseAudit = w.eraseAudit) ↔ ¬w.LateRejected op := by
  constructor
  · intro h hl
    have hstep := w.apply_step none op
    have ho : (w.apply op none).outcome ≠ .allow := by
      intro ho
      rw [ho] at hstep
      exact hstep.not_late_of_allow hl
    exact (hstep.eraseAudit_eq_iff ho).mp (h none ho) hl
  · intro hl ex ho
    exact ((w.apply_step ex op).eraseAudit_eq_iff ho).mpr hl

/-- A restart planned before anything ran is rejected, and yet takes a slot. -/
theorem rejected_restart_takes_slot :
    ¬∀ w : Workload, Reachable w → ∀ (op : WorkloadOp) (ex : Option Explanation),
      (w.apply op ex).outcome ≠ .allow → (w.apply op ex).workload.eraseAudit = w.eraseAudit := by
  intro h
  have hreach := (reachable_create (.fromU64 1) (text "w") (text "job")).apply
    (.setPolicy { restart := { kind := .alwaysWithLimit, maxRestarts := 2 } }) none
  have := h _ hreach (.planRestart (.fromU64 1) (text "x")) none (by decide)
  exact absurd (congrArg Workload.restartCount this) (by decide)

end Workload

end WorkloadFabric
