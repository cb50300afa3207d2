/-
Explanations as texts.

An explanation is rendered as the names of its outcome and of two states, its generation
if it has a valid one, and its detail.  The names are words without blanks, so they can be
told; but a detail may look like a generation.

* **`explainToString_eq_iff`** — two explanations are rendered alike exactly if they are
  the same, or differ in this only: one of them has no valid generation, and its detail
  spells out the generation and the detail of the other.
-/
import WorkloadFabric.Descriptor
import WorkloadFabric.Workload

namespace WorkloadFabric

def outcomeName : Outcome → Text
  | .allow => text "ALLOW"
  | .defer => text "DEFER"
  | .blockedDependency => text "BLOCKED_DEPENDENCY"
  | .blockedResourceContract => text "BLOCKED_RESOURCE_CONTRACT"
  | .rejectStaleEpoch => text "REJECT_STALE_EPOCH"
  | .rejectStaleBoot => text "REJECT_STALE_BOOT"
  | .rejectStaleWorkloadGeneration => text "REJECT_STALE_WORKLOAD_GENERATION"
  | .rejectStaleEpisode => text "REJECT_STALE_EPISODE"
  | .rejectStaleResourceContract => text "REJECT_STALE_RESOURCE_CONTRACT"
  | .rejectStaleDependency => text "REJECT_STALE_DEPENDENCY"
  | .rejectStalePriority => text "REJECT_STALE_PRIORITY"
  | .rejectStaleProgress => text "REJECT_STALE_PROGRESS"
  | .rejectStaleMigration => text "REJECT_STALE_MIGRATION"
  | .rejectTerminal => text "REJECT_TERMINAL"
  | .rejectCancelled => text "REJECT_CANCELLED"
  | .rejectRestartLimit => text "REJECT_RESTART_LIMIT"
  | .rejectMigrationIneligible => text "REJECT_MIGRATION_INELIGIBLE"
  | .rejectNotSuspended => text "REJECT_NOT_SUSPENDED"
  | .rejectNotResumable => text "REJECT_NOT_RESUMABLE"
  | .rejectInvalidTransition => text "REJECT_INVALID_TRANSITION"
  | .rejectProgressDoubleCount => text "REJECT_PROGRESS_DOUBLE_COUNT"
  | .rejectProgressRegression => text "REJECT_PROGRESS_REGRESSION"
  | .rejectResourceDoubleRelease => text "REJECT_RESOURCE_DOUBLE_RELEASE"
  | .rejectDuplicateWorkload => text "REJECT_DUPLICATE_WORKLOAD"
  | .rejectWorkloadNotFound => text "REJECT_WORKLOAD_NOT_FOUND"
  | .rejectCrossWorkload => text "REJECT_CROSS_WORKLOAD"
  | .rejectImmutableContract => text "REJECT_IMMUTABLE_CONTRACT"
  | .rejectPriorityNotMutable => text "REJECT_PRIORITY_NOT_MUTABLE"
  | .rejectNotBlocked => text "REJECT_NOT_BLOCKED"
  | .rejectEpisodeIneligible => text "REJECT_EPISODE_INELIGIBLE"
  | .rejectNotRunnable => text "REJECT_NOT_RUNNABLE"
  | .rejectUnknownDependency => text "REJECT_UNKNOWN_DEPENDENCY"
  | .rejectDegradedPolicy => text "REJECT_DEGRADED_POLICY"
  | .rejectCompletionPolicy => text "REJECT_COMPLETION_POLICY"
  | .rejectUnknown => text "REJECT_UNKNOWN"
  | .revalidationRequired => text "REVALIDATION_REQUIRED"
  | .unknown => text "UNKNOWN"

/-! ### Words -/

/-- The text is empty, or begins with a blank. -/
def Spaced (t : Text) : Prop := t = [] ∨ ∃ rest, t = 32 :: rest

/-- **A word ends at the first blank.** -/
theorem word_inj {w w' r r' : Text} (hw : (32 : UInt8) ∉ w) (hw' : (32 : UInt8) ∉ w')
    (hr : Spaced r) (hr' : Spaced r') (h : w ++ r = w' ++ r') : w = w' ∧ r = r' := by
  have htake {w r : Text} (hw : (32 : UInt8) ∉ w) (hr : Spaced r) :
      (w ++ r).takeWhile (· != 32) = w := by
    have hall : ∀ b ∈ w, (b != 32) = true := fun b hb => bne_iff_ne.mpr fun heq => hw (heq ▸ hb)
    rw [List.takeWhile_append_of_pos hall]
    rcases hr with rfl | ⟨rest, rfl⟩
    · exact List.append_nil w
    · exact List.append_nil w
  have heq : w = w' := by rw [← htake hw hr, h, htake hw' hr']
  subst heq
  exact ⟨rfl, List.append_cancel_left h⟩

theorem spaced_append {t : Text} (h : t.head? = some 32) (r : Text) : Spaced (t ++ r) := by
  obtain ⟨rest, rfl⟩ := List.head?_eq_some_iff.mp h
  exact .inr ⟨rest ++ r, rfl⟩

theorem outcomeName_word (o : Outcome) : (32 : UInt8) ∉ outcomeName o := by
  cases o <;> decide

theorem workloadStateName_word (s : WorkloadState) : (32 : UInt8) ∉ workloadStateName s := by
  cases s <;> decide

/-! ### Different values have different names -/

theorem outcomeName_inj {o o' : Outcome} (h : outcomeName o = outcomeName o') : o = o' := by
  have hdistinct : ∀ i < 37, ∀ j < 37,
      outcomeName (Outcome.ofNat i) = outcomeName (Outcome.ofNat j) → i = j := by
    decide +kernel
  have hlt (o : Outcome) : o.ctorIdx < 37 := by cases o <;> decide
  rw [← Outcome.ofNat_ctorIdx o, ← Outcome.ofNat_ctorIdx o'] at h ⊢
  rw [hdistinct _ (hlt o) _ (hlt o') h]

theorem workloadStateName_inj {s s' : WorkloadState}
    (h : workloadStateName s = workloadStateName s') : s = s' := by
  have hdistinct : ∀ i < 26, ∀ j < 26,
      workloadStateName (WorkloadState.ofNat i) = workloadStateName (WorkloadState.ofNat j) →
        i = j := by
    decide +kernel
  have hlt (s : WorkloadState) : s.ctorIdx < 26 := by cases s <;> decide
  rw [← WorkloadState.ofNat_ctorIdx s, ← WorkloadState.ofNat_ctorIdx s'] at h ⊢
  rw [hdistinct _ (hlt s) _ (hlt s') h]

theorem decimal_word (v : UInt64) : (32 : UInt8) ∉ decimal v.toNat := fun hmem =>
  absurd ((numeral_decimal v).digits _ hmem) (by decide)

theorem decimal_inj {v v' : UInt64} (h : decimal v.toNat = decimal v'.toNat) : v = v' := by
  rw [← UInt64.toNat_inj, ← (numeral_decimal v).value, ← (numeral_decimal v').value, h]

/-! ### The rendering -/

namespace Explanation

/-- `if (!e.detail.empty()) { s += " "; s += e.detail; }` -/
def detailPart (detail : Text) : Text :=
  if detail = [] then [] else text " " ++ detail

/-- `if (e.workloadGeneration.valid()) s += " wgen=" + ...` -/
def generationPart (g : WorkloadGeneration) : Text :=
  if g.valid then text " wgen=" ++ decimal g.value.toNat else []

def explainToString (e : Explanation) : Text :=
  outcomeName e.outcome ++ text " state=" ++ workloadStateName e.fromState
    ++ text " -> " ++ workloadStateName e.toState
    ++ generationPart e.workloadGeneration ++ detailPart e.detail

/-- What stands behind the states. -/
def tail (e : Explanation) : Text := generationPart e.workloadGeneration ++ detailPart e.detail

/-- `e'` has no valid generation, and its detail is what `e` shows of its own. -/
structure SpelledBy (e e' : Explanation) : Prop where
  valid : e.workloadGeneration.valid
  invalid : ¬e'.workloadGeneration.valid
  detail : e'.detail =
    text "wgen=" ++ decimal e.workloadGeneration.value.toNat ++ detailPart e.detail

theorem detailPart_spaced (detail : Text) : Spaced (detailPart detail) := by
  rw [detailPart]
  split
  · exact .inl rfl
  · exact .inr ⟨detail, rfl⟩

theorem detailPart_inj {d d' : Text} (h : detailPart d = detailPart d') : d = d' := by
  rw [detailPart, detailPart] at h
  split at h
  case isTrue hd =>
    split at h
    case isTrue hd' => rw [hd, hd']
    case isFalse => cases h
  case isFalse =>
    split at h
    case isTrue => cases h
    case isFalse => exact List.append_cancel_left h

theorem tail_of_valid {e : Explanation} (h : e.workloadGeneration.valid) :
    e.tail = 32 :: (text "wgen=" ++ decimal e.workloadGeneration.value.toNat
      ++ detailPart e.detail) := by
  rw [tail, generationPart, if_pos h]
  rfl

theorem tail_of_invalid {e : Explanation} (h : ¬e.workloadGeneration.valid) :
    e.tail = detailPart e.detail := by
  rw [tail, generationPart, if_neg h, List.nil_append]

theorem tail_spaced (e : Explanation) : Spaced e.tail := by
  by_cases h : e.workloadGeneration.valid
  · exact .inr ⟨_, tail_of_valid h⟩
  · rw [tail_of_invalid h]
    exact detailPart_spaced e.detail

/-- An invalid generation is 0. -/
theorem generation_of_invalid {g g' : WorkloadGeneration} (h : ¬g.valid) (h' : ¬g'.valid) :
    g = g' := by
  have hzero {g : WorkloadGeneration} (h : ¬g.valid) : g.value = 0 := by
    simpa [UniqueValue.valid] using h
  exact UniqueValue.ext_toU64 ((hzero h).trans (hzero h').symm)

theorem tail_of_valid_of_invalid {e e' : Explanation} (h : e.workloadGeneration.valid)
    (h' : ¬e'.workloadGeneration.valid) : e.tail = e'.tail ↔ e.SpelledBy e' := by
  rw [tail_of_valid h, tail_of_invalid h']
  constructor
  · intro heq
    rw [detailPart.eq_1 e'.detail] at heq
    split at heq
    case isTrue => cases heq
    case isFalse => exact ⟨h, h', (List.cons.inj heq).2.symm⟩
  · intro hspelled
    have hne : e'.detail ≠ [] := by
      rw [hspelled.detail, List.append_assoc]
      exact List.append_ne_nil_of_left_ne_nil (by decide) _
    rw [detailPart.eq_1 e'.detail, if_neg hne, hspelled.detail]
    rfl

theorem tail_eq_iff {e e' : Explanation} :
    e.tail = e'.tail ↔
      e.workloadGeneration = e'.workloadGeneration ∧ e.detail = e'.detail ∨
        e.SpelledBy e' ∨ e'.SpelledBy e := by
  have hsame (h : e.workloadGeneration = e'.workloadGeneration ∧ e.detail = e'.detail) :
      e.tail = e'.tail := by
    rw [tail, tail, h.1, h.2]
  by_cases h : e.workloadGeneration.valid
  · by_cases h' : e'.workloadGeneration.valid
    · refine ⟨fun heq => .inl ?_, ?_⟩
      · rw [tail_of_valid h, tail_of_valid h', List.append_assoc, List.append_assoc] at heq
        obtain ⟨hg, hd⟩ := word_inj (decimal_word _) (decimal_word _) (detailPart_spaced _)
          (detailPart_spaced _) (List.append_cancel_left (List.cons.inj heq).2)
        exact ⟨UniqueValue.ext_toU64 (decimal_inj hg), detailPart_inj hd⟩
      · rintro (heq | hspelled | hspelled)
        · exact hsame heq
        · exact absurd h' hspelled.invalid
        · exact absurd h hspelled.invalid
    · refine ⟨fun heq => .inr (.inl ((tail_of_valid_of_invalid h h').mp heq)), ?_⟩
      rintro (heq | hspelled | hspelled)
      · exact hsame heq
      · exact (tail_of_valid_of_invalid h h').mpr hspelled
      · exact absurd h hspelled.invalid
  · by_cases h' : e'.workloadGeneration.valid
    · refine ⟨fun heq => .inr (.inr ((tail_of_valid_of_invalid h' h).mp heq.symm)), ?_⟩
      rintro (heq | hspelled | hspelled)
      · exact hsame heq
      · exact absurd h' hspelled.invalid
      · exact ((tail_of_valid_of_invalid h' h).mpr hspelled).symm
    · refine ⟨fun heq => .inl ⟨generation_of_invalid h h', ?_⟩, ?_⟩
      · rw [tail_of_invalid h, tail_of_invalid h'] at heq
        exact detailPart_inj heq
      · rintro (heq | hspelled | hspelled)
        · exact hsame heq
        · exact absurd hspelled.valid h
        · exact absurd hspelled.valid h'

/-- The three names, each up to the blank behind it, and the tail. -/
theorem explainToString_eq (e : Explanation) :
    e.explainToString = outcomeName e.outcome ++ (text " state=" ++
      (workloadStateName e.fromState ++ (text " -> " ++
        (workloadStateName e.toState ++ e.tail)))) := by
  simp only [explainToString, tail, List.append_assoc]

/-- **Two explanations read alike exactly if they agree, or the detail of one spells out the
generation of the other.** -/
theorem explainToString_eq_iff (e e' : Explanation) :
    e.explainToString = e'.explainToString ↔
      e.outcome = e'.outcome ∧ e.fromState = e'.fromState ∧ e.toState = e'.toState ∧
        (e.workloadGeneration = e'.workloadGeneration ∧ e.detail = e'.detail ∨
          e.SpelledBy e' ∨ e'.SpelledBy e) := by
  rw [explainToString_eq, explainToString_eq, ← tail_eq_iff]
  constructor
  · intro h
    obtain ⟨houtcome, h⟩ := word_inj (outcomeName_word _) (outcomeName_word _)
      (spaced_append (by decide) _) (spaced_append (by decide) _) h
    obtain ⟨hfrom, h⟩ := word_inj (workloadStateName_word _) (workloadStateName_word _)
      (spaced_append (by decide) _) (spaced_append (by decide) _) (List.append_cancel_left h)
    obtain ⟨hto, htail⟩ := word_inj (workloadStateName_word _) (workloadStateName_word _)
      (tail_spaced e) (tail_spaced e') (List.append_cancel_left h)
    exact ⟨outcomeName_inj houtcome, workloadStateName_inj hfrom, workloadStateName_inj hto,
      htail⟩
  · rintro ⟨houtcome, hfrom, hto, htail⟩
    rw [houtcome, hfrom, hto, htail]

/-- Generation 7 without a detail, and a detail that names generation 7. -/
example : explainToString { outcome := .allow, workloadGeneration := ⟨7⟩ }
    = explainToString { outcome := .allow, detail := text "wgen=7" } := by
  decide

end Explanation

end WorkloadFabric
