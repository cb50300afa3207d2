/-
What a priority is worth after a run, and whom it protects.

Three unguarded additions make the effective value.  While every sum is an `int`, the
value is the mathematical one (`exactValue`); a promotion of a large base, or the
starvation boost, takes it out of range, and signed overflow is undefined.  Preemption
asks for the two flags, and never for the tier that is protected by contract.

* **`effective_value_exact_iff`** — no sum of a run overflows and the effective value is
  the exact one, exactly if the sums of every part of the run fit;
* **`starved_priority_overflows`** — the boost of a large base does not;
* **`protected_tiers_iff`** — no CRITICAL or SYSTEM priority of a run may be preempted,
  exactly if none is made of an unprotected priority, and none loses its protection;
* **`system_tier_preemptible`** — one that is made so.
-/
import WorkloadFabric.RoundTrip
import WorkloadFabric.Machine

namespace WorkloadFabric

/-! ### Operations on `int` -/

theorem fitsInt_toInt (v : Int32) : FitsInt v.toInt := by
  have hlo := v.le_toInt
  have hhi := v.toInt_le
  exact ⟨by rw [Int32.toInt_minValue]; omega, hhi⟩

/-- **An operation that does not overflow is exact.** -/
theorem intResult_eq_some_iff {z : ℤ} {v : Int32} : intResult z = some v ↔ v.toInt = z := by
  constructor
  · intro h
    rw [intResult, Option.ite_none_right_eq_some, Option.some_inj] at h
    obtain ⟨⟨hlo, hhi⟩, rfl⟩ := h
    rw [Int32.toInt_minValue] at hlo
    rw [Int32.toInt_maxValue] at hhi
    exact Int32.toInt_ofInt_of_le (by omega) (by omega)
  · rintro rfl
    rw [intResult, if_pos (fitsInt_toInt v), Int32.ofInt_toInt]

theorem exists_intResult_iff {z : ℤ} : (∃ v, intResult z = some v) ↔ FitsInt z := by
  constructor
  · rintro ⟨v, h⟩
    rw [← intResult_eq_some_iff.mp h]
    exact fitsInt_toInt v
  · intro h
    exact ⟨_, if_pos h⟩

/-! ### Runs -/

/-- The calls that change a priority; `reload` is a persistence round trip. -/
inductive PriorityOp where
  | setBase (cls : PriorityClass) (tier : PriorityTier) (priority : Int32)
  | promote (delta : Int32)
  | demote (delta : Int32)
  | markStarved
  | setProtected (b : Bool)
  | reload
deriving DecidableEq

namespace Priority

/-- What the decoder reads back of an encoded priority. -/
def reload (p : Priority) : Option Priority :=
  match Reader.priority (Writer.priority p) with
  | .ok (p', _) => some p'
  | .error _ => none

theorem reload_eq (p : Priority) : p.reload = some p := by
  have hlen : (Writer.priority p).length = 36 := rfl
  have hread := (Reader.reads_priority p [] (by rw [List.append_nil, hlen]; decide)).1 trivial
  rw [List.append_nil] at hread
  rw [reload, hread]

/-- One call; `none` once the behaviour is undefined. -/
def apply (p : Priority) : PriorityOp → Option Priority
  | .setBase cls tier priority => some (p.setBase cls tier priority)
  | .promote delta => p.promote delta
  | .demote delta => p.demote delta
  | .markStarved => some p.markStarved
  | .setProtected b => some (p.setProtected b)
  | .reload => p.reload

/-- A finite sequence of calls on a new priority. -/
def run (ops : List PriorityOp) : Option Priority :=
  ops.foldl (fun p op => p.bind (·.apply op)) (some {})

theorem run_append_singleton (ops : List PriorityOp) (op : PriorityOp) :
    run (ops ++ [op]) = (run ops).bind (·.apply op) := by
  rw [run, List.foldl_append]
  rfl

/-! ### What one call does -/

/-- What a call adds to the promotion, as a number. -/
def lift : PriorityOp → ℤ
  | .promote delta => max delta.toInt 0
  | .demote delta => -max delta.toInt 0
  | _ => 0

/-- What a call makes of the base. -/
def rebase (base : ℤ) : PriorityOp → ℤ
  | .setBase _ _ priority => priority.toInt
  | _ => base

/-- What a call makes of the numbers of a priority. -/
structure Counts (p : Priority) (op : PriorityOp) (p' : Priority) : Prop where
  base : p'.baseValue.toInt = rebase p.baseValue.toInt op
  promotion : p'.promotion.toInt = p.promotion.toInt + lift op
  starved : p'.starved = true ↔ p.starved = true ∨ op = .markStarved

/-- Adding to the promotion, as `promote` and `demote` do it for a positive delta. -/
theorem shift_cases (p : Priority) (z : ℤ) :
    (FitsInt (p.promotion.toInt + z) ∧ ∃ v : Int32, v.toInt = p.promotion.toInt + z ∧
      (intResult (p.promotion.toInt + z)).map (fun v =>
        { p with promotion := v, gen := next p.gen }) =
          some { p with promotion := v, gen := next p.gen }) ∨
    (¬FitsInt (p.promotion.toInt + z) ∧ (intResult (p.promotion.toInt + z)).map (fun v =>
        { p with promotion := v, gen := next p.gen }) = none) := by
  by_cases h : FitsInt (p.promotion.toInt + z)
  · obtain ⟨v, hv⟩ := exists_intResult_iff.mpr h
    exact .inl ⟨h, v, intResult_eq_some_iff.mp hv, by rw [hv, Option.map_some]⟩
  · exact .inr ⟨h, by rw [intResult, if_neg h, Option.map_none]⟩

/-- **What a call does**: it counts, or the promotion overflows. -/
theorem apply_cases (p : Priority) (op : PriorityOp) :
    (FitsInt (p.promotion.toInt + lift op) ∧ ∃ p', p.apply op = some p' ∧ p.Counts op p') ∨
      (¬FitsInt (p.promotion.toInt + lift op) ∧ p.apply op = none) := by
  have hkept (h : lift op = 0) : FitsInt (p.promotion.toInt + lift op) := by
    rw [h, add_zero]
    exact fitsInt_toInt _
  cases op with
  | setBase cls tier priority =>
    exact .inl ⟨hkept rfl, _, rfl, rfl, (add_zero _).symm, by simp [setBase]⟩
  | markStarved => exact .inl ⟨hkept rfl, _, rfl, rfl, (add_zero _).symm, by simp [markStarved]⟩
  | setProtected b =>
    exact .inl ⟨hkept rfl, _, rfl, rfl, (add_zero _).symm, by simp [setProtected]⟩
  | reload => exact .inl ⟨hkept rfl, p, p.reload_eq, rfl, (add_zero _).symm, by simp⟩
  | promote delta =>
    rw [Priority.apply, promote]
    by_cases hd : delta ≤ 0
    · have hz : lift (.promote delta) = 0 :=
        max_eq_right (by simpa [Int32.le_iff_toInt_le] using hd)
      rw [if_pos hd]
      exact .inl ⟨hkept hz, p, rfl, rfl, by rw [hz, add_zero], by simp⟩
    · have hz : lift (.promote delta) = delta.toInt :=
        max_eq_left (by simp [Int32.le_iff_toInt_le] at hd; omega)
      rw [if_neg hd, hz]
      refine (p.shift_cases delta.toInt).imp_left fun ⟨hfits, v, hv, hsome⟩ => ?_
      exact ⟨hfits, _, hsome, rfl, by rw [hz]; exact hv, by simp⟩
  | demote delta =>
    rw [Priority.apply, demote]
    by_cases hd : delta ≤ 0
    · have hz : lift (.demote delta) = 0 := by
        rw [lift, max_eq_right (by simpa [Int32.le_iff_toInt_le] using hd), neg_zero]
      rw [if_pos hd]
      exact .inl ⟨hkept hz, p, rfl, rfl, by rw [hz, add_zero], by simp⟩
    · have hz : lift (.demote delta) = -delta.toInt := by
        rw [lift, max_eq_left (by simp [Int32.le_iff_toInt_le] at hd; omega)]
      rw [if_neg hd, hz, sub_eq_add_neg]
      refine (p.shift_cases (-delta.toInt)).imp_left fun ⟨hfits, v, hv, hsome⟩ => ?_
      exact ⟨hfits, _, hsome, rfl, by rw [hz]; exact hv, by simp⟩

/-- **When the effective value is defined**, and what it is. -/
theorem effectiveValue_eq_some_iff {p : Priority} {v : Int32} : p.effectiveValue = some v ↔
    FitsInt (p.baseValue.toInt + p.promotion.toInt) ∧
      v.toInt = p.baseValue.toInt + p.promotion.toInt + if p.starved then 1000 else 0 := by
  rw [effectiveValue, Option.bind_eq_some_iff]
  constructor
  · rintro ⟨sum, hsum, hv⟩
    refine ⟨exists_intResult_iff.mp ⟨sum, hsum⟩, ?_⟩
    rw [← intResult_eq_some_iff.mp hsum]
    split at hv
    case isTrue hs => rw [if_pos hs, intResult_eq_some_iff.mp hv]
    case isFalse hs => rw [if_neg hs, add_zero, Option.some.inj hv]
  · rintro ⟨hfits, hv⟩
    obtain ⟨sum, hsum⟩ := exists_intResult_iff.mpr hfits
    refine ⟨sum, hsum, ?_⟩
    rw [← intResult_eq_some_iff.mp hsum] at hv
    split
    case isTrue hs => exact intResult_eq_some_iff.mpr (by rwa [if_pos hs] at hv)
    case isFalse hs =>
      rw [if_neg hs, add_zero] at hv
      rw [Int32.toInt_inj.mp hv]

/-! ### The exact value -/

/-- The base of the last `setBase`. -/
def baseAfter (ops : List PriorityOp) : ℤ := ops.foldl rebase 0

/-- The positive promotions, less the positive demotions. -/
def promotedBy (ops : List PriorityOp) : ℤ := (ops.map lift).sum

/-- The starvation boost, if the priority was ever starved. -/
def boostAfter (ops : List PriorityOp) : ℤ := if .markStarved ∈ ops then 1000 else 0

def exactValue (ops : List PriorityOp) : ℤ := baseAfter ops + promotedBy ops + boostAfter ops

/-- The sums that are made of the calls are `int`s. -/
structure SumsFit (ops : List PriorityOp) : Prop where
  promotion : FitsInt (promotedBy ops)
  based : FitsInt (baseAfter ops + promotedBy ops)
  value : FitsInt (exactValue ops)

/-- The priority holds what the calls add up to. -/
structure Holds (p : Priority) (ops : List PriorityOp) : Prop where
  base : p.baseValue.toInt = baseAfter ops
  promotion : p.promotion.toInt = promotedBy ops
  starved : p.starved = true ↔ .markStarved ∈ ops

section Sums

variable (ops : List PriorityOp) (op : PriorityOp)

theorem baseAfter_append_singleton : baseAfter (ops ++ [op]) = rebase (baseAfter ops) op := by
  rw [baseAfter, List.foldl_append]
  rfl

theorem promotedBy_append_singleton : promotedBy (ops ++ [op]) = promotedBy ops + lift op := by
  rw [promotedBy, List.map_append, List.sum_append, List.map_singleton, List.sum_singleton]
  rfl

theorem boostAfter_le : boostAfter ops ≤ boostAfter (ops ++ [op]) := by
  rw [boostAfter, boostAfter]
  split
  case isTrue h => rw [if_pos (List.mem_append_left _ h)]
  case isFalse => split <;> decide

end Sums

variable {p p' : Priority} {ops : List PriorityOp} {op : PriorityOp}

theorem Counts.holds (h : p.Counts op p') (hp : p.Holds ops) : p'.Holds (ops ++ [op]) where
  base := by rw [h.base, hp.base, baseAfter_append_singleton]
  promotion := by rw [h.promotion, hp.promotion, promotedBy_append_singleton]
  starved := by
    rw [h.starved, hp.starved, List.mem_append, List.mem_singleton, eq_comm (a := op)]

theorem holds_run (h : run ops = some p) : p.Holds ops := by
  induction ops using List.reverseRecOn generalizing p with
  | nil =>
    obtain rfl := Option.some.inj h
    exact ⟨rfl, rfl, by simp⟩
  | append_singleton ops op ih =>
    rw [run_append_singleton, Option.bind_eq_some_iff] at h
    obtain ⟨q, hq, hp⟩ := h
    rcases q.apply_cases op with ⟨-, p', hp', hcounts⟩ | ⟨-, hnone⟩
    · obtain rfl := Option.some.inj (hp.symm.trans hp')
      exact hcounts.holds (ih hq)
    · exact absurd (hp.symm.trans hnone) (by simp)

/-- A run is defined as long as the promotions fit. -/
theorem exists_run (h : ∀ pre post, ops = pre ++ post → FitsInt (promotedBy pre)) :
    ∃ p, run ops = some p := by
  induction ops using List.reverseRecOn with
  | nil => exact ⟨_, rfl⟩
  | append_singleton ops op ih =>
    obtain ⟨q, hq⟩ := ih fun pre post heq => h pre (post ++ [op]) (by rw [heq, List.append_assoc])
    have hfits := h (ops ++ [op]) [] (List.append_nil _).symm
    rw [promotedBy_append_singleton, ← (holds_run hq).promotion] at hfits
    rcases q.apply_cases op with ⟨-, p', hp', -⟩ | ⟨hn, -⟩
    · exact ⟨p', by rw [run_append_singleton, hq, Option.bind_some, hp']⟩
    · exact absurd hfits hn

/-- The effective value of a priority that holds the sums. -/
theorem Holds.effectiveValue_iff (h : p.Holds ops) {v : Int32} : p.effectiveValue = some v ↔
    FitsInt (baseAfter ops + promotedBy ops) ∧ v.toInt = exactValue ops := by
  rw [effectiveValue_eq_some_iff, h.base, h.promotion, exactValue, boostAfter]
  simp only [h.starved]

/-- **The effective value moves the way the call says.** -/
theorem exactValue_monotone (ops : List PriorityOp) (op : PriorityOp) :
    ((∃ delta, op = .promote delta) ∨ op = .markStarved →
      exactValue ops ≤ exactValue (ops ++ [op])) ∧
    ((∃ delta, op = .demote delta) → exactValue (ops ++ [op]) ≤ exactValue ops) := by
  have hboost := boostAfter_le ops op
  have hsame (h : op ≠ .markStarved) : boostAfter (ops ++ [op]) = boostAfter ops := by
    simp [boostAfter, Ne.symm h]
  simp only [exactValue, baseAfter_append_singleton, promotedBy_append_singleton]
  refine ⟨?_, ?_⟩
  · rintro (⟨delta, rfl⟩ | rfl)
    · simp only [rebase, lift]
      omega
    · simp only [rebase, lift]
      omega
  · rintro ⟨delta, rfl⟩
    rw [hsame (by simp)]
    simp only [rebase, lift]
    omega

/-- **The effective value is exact and monotone exactly as long as the sums fit**: over
every sequence of calls on a new priority, after each of its parts. -/
theorem effective_value_exact_iff (ops : List PriorityOp) :
    ((∀ pre post, ops = pre ++ post →
        ∃ p v, run pre = some p ∧ p.effectiveValue = some v ∧ v.toInt = exactValue pre) ∧
      ∀ pre op post, ops = pre ++ op :: post → ∀ p p' v v', run pre = some p →
        p.apply op = some p' → p.effectiveValue = some v → p'.effectiveValue = some v' →
          ((∃ delta, op = .promote delta) ∨ op = .markStarved → v ≤ v') ∧
            ((∃ delta, op = .demote delta) → v' ≤ v)) ↔
      ∀ pre post, ops = pre ++ post → SumsFit pre := by
  constructor
  · rintro ⟨hexact, -⟩ pre post heq
    obtain ⟨p, v, hp, hv, hvalue⟩ := hexact pre post heq
    have hholds := holds_run hp
    refine ⟨?_, (hholds.effectiveValue_iff.mp hv).1, ?_⟩
    · rw [← hholds.promotion]
      exact fitsInt_toInt _
    · rw [← hvalue]
      exact fitsInt_toInt _
  · intro hfit
    refine ⟨fun pre post heq => ?_, fun pre op post heq p p' v v' hp hp' hv hv' => ?_⟩
    · have hrun : ∃ p, run pre = some p := exists_run fun pre' post' heq' =>
        (hfit pre' (post' ++ post) (by rw [heq, heq', List.append_assoc])).promotion
      obtain ⟨p, hp⟩ := hrun
      have hsums := hfit pre post heq
      obtain ⟨v, hv⟩ := exists_intResult_iff.mpr hsums.value
      have hvalue := intResult_eq_some_iff.mp hv
      exact ⟨p, v, hp, (holds_run hp).effectiveValue_iff.mpr ⟨hsums.based, hvalue⟩, hvalue⟩
    · have hrun : run (pre ++ [op]) = some p' := by
        rw [run_append_singleton, hp, Option.bind_some, hp']
      rw [Int32.le_iff_toInt_le, Int32.le_iff_toInt_le,
        ((holds_run hp).effectiveValue_iff.mp hv).2,
        ((holds_run hrun).effectiveValue_iff.mp hv').2]
      exact exactValue_monotone pre op

/-- The starvation boost of the largest base. -/
theorem starved_priority_overflows :
    ¬∀ ops : List PriorityOp,
      ∃ p v, run ops = some p ∧ p.effectiveValue = some v ∧ v.toInt = exactValue ops := by
  intro h
  obtain ⟨p, v, hp, hv, -⟩ := h [.setBase (.fromU64 1) .normal 2147483647, .markStarved]
  obtain rfl := Option.some.inj hp
  exact absurd (show none = some v from hv) (by simp)

/-! ### Protected tiers -/

/-- The tiers that are never preempted by contract. -/
def protectedTier : PriorityTier → Bool
  | .critical | .system => true
  | _ => false

/-- The call makes no protected tier of an unprotected priority, and takes no protection
from one. -/
def KeepsProtection (p : Priority) : PriorityOp → Prop
  | .setBase _ tier _ => protectedTier tier = true → p.protectedFlag = true
  | .setProtected b => protectedTier p.baseTier = true → b = true
  | _ => True

/-- A priority of a protected tier may not be preempted. -/
def Protects (p : Priority) : Prop := protectedTier p.baseTier = true → p.mayBePreempted = false

theorem protects_iff (h : p.preemptible = true) :
    p.Protects ↔ (protectedTier p.baseTier = true → p.protectedFlag = true) := by
  rw [Protects, mayBePreempted, h, Bool.true_and, Bool.not_eq_false']

/-- The call leaves the tier and the flags alone. -/
def SameFlags (p p' : Priority) : Prop :=
  p'.baseTier = p.baseTier ∧ p'.preemptible = p.preemptible ∧ p'.protectedFlag = p.protectedFlag

theorem sameFlags_shift {z : ℤ}
    (h : (intResult z).map (fun v => { p with promotion := v, gen := next p.gen }) = some p') :
    p.SameFlags p' := by
  obtain ⟨v, -, rfl⟩ := Option.map_eq_some_iff.mp h
  exact ⟨rfl, rfl, rfl⟩

theorem sameFlags_promote {delta : Int32} (h : p.promote delta = some p') : p.SameFlags p' := by
  rw [promote] at h
  split at h
  · exact Option.some.inj h ▸ ⟨rfl, rfl, rfl⟩
  · exact sameFlags_shift h

theorem sameFlags_demote {delta : Int32} (h : p.demote delta = some p') : p.SameFlags p' := by
  rw [demote] at h
  split at h
  · exact Option.some.inj h ▸ ⟨rfl, rfl, rfl⟩
  · exact sameFlags_shift h

/-- No call makes a priority preemptible or not. -/
theorem preemptible_apply (h : p.apply op = some p') : p'.preemptible = p.preemptible := by
  cases op with
  | promote delta => exact (sameFlags_promote h).2.1
  | demote delta => exact (sameFlags_demote h).2.1
  | reload =>
    rw [Priority.apply, reload_eq, Option.some_inj] at h
    rw [h]
  | setBase | markStarved | setProtected =>
    obtain rfl := Option.some.inj h
    rfl

theorem SameFlags.protects (hf : p.SameFlags p') (h : p.Protects) : p'.Protects := by
  obtain ⟨htier, hpre, hflag⟩ := hf
  rw [Protects, mayBePreempted, htier, hpre, hflag]
  exact h

/-- **The calls that unprotect a tier are those that do not keep its protection.** -/
theorem protects_apply_iff (hpre : p.preemptible = true) (h : p.Protects) (op : PriorityOp) :
    (∀ p', p.apply op = some p' → p'.Protects) ↔ p.KeepsProtection op := by
  cases op with
  | promote delta => exact iff_of_true (fun p' hp' => (sameFlags_promote hp').protects h) trivial
  | demote delta => exact iff_of_true (fun p' hp' => (sameFlags_demote hp').protects h) trivial
  | reload =>
    refine iff_of_true (fun p' hp' => ?_) trivial
    rw [Priority.apply, reload_eq, Option.some_inj] at hp'
    exact hp' ▸ h
  | markStarved =>
    refine iff_of_true (fun p' hp' => ?_) trivial
    obtain rfl := Option.some.inj hp'
    exact h
  | setBase cls tier priority =>
    have hiff : (p.setBase cls tier priority).Protects ↔
        p.KeepsProtection (.setBase cls tier priority) := protects_iff hpre
    exact ⟨fun hp' => hiff.mp (hp' _ rfl), fun hk p' hp' => Option.some.inj hp' ▸ hiff.mpr hk⟩
  | setProtected b =>
    have hiff : (p.setProtected b).Protects ↔ p.KeepsProtection (.setProtected b) :=
      protects_iff hpre
    exact ⟨fun hp' => hiff.mp (hp' _ rfl), fun hk p' hp' => Option.some.inj hp' ▸ hiff.mpr hk⟩

/-- **Protected tiers are not preempted exactly as long as their protection is kept**: over
every sequence of calls on a new priority, in every state reached. -/
theorem protected_tiers_iff (ops : List PriorityOp) :
    (∀ pre post, ops = pre ++ post → ∀ p, run pre = some p →
      protectedTier p.baseTier = true → p.mayBePreempted = false) ↔
      ∀ pre op post, ops = pre ++ op :: post → ∀ p, run pre = some p → p.KeepsProtection op := by
  -- undefined once and for all: nothing is asked of such a run
  let step (s : Option Priority) (op : PriorityOp) : Option Priority := s.bind (·.apply op)
  have hiff : (∀ pre post, ops = pre ++ post →
        ∀ p, pre.foldl step (some {}) = some p → p.Protects) ↔
      Machine.Along step (fun s op => ∀ p, s = some p → p.KeepsProtection op) (some {}) ops := by
    refine Machine.always_iff_along (K := fun _ _ => True)
      (I := fun s => ∀ p : Priority, s = some p → p.preemptible = true)
      (P := fun s => ∀ p : Priority, s = some p → p.Protects) ?_ ?_ ?_ ?_
      (Machine.along_of_forall fun _ _ _ => trivial)
    · intro s op _ hI p' hp'
      obtain ⟨p, hp, hp'⟩ := Option.bind_eq_some_iff.mp hp'
      exact (preemptible_apply hp').trans (hI p hp)
    · intro s op _ hI hP
      rcases s with _ | p
      · exact iff_of_true (fun p' hp' => absurd hp' (by simp [step])) fun p hp => by simp at hp
      · have hone := protects_apply_iff (hI p rfl) (hP p rfl) op
        simpa [step] using hone
    · rintro p hp
      obtain rfl := Option.some.inj hp
      rfl
    · rintro p hp
      obtain rfl := Option.some.inj hp
      exact fun h => absurd h (by decide)
  exact hiff.trans Machine.along_iff

/-- A SYSTEM priority may be preempted from the first. -/
theorem system_tier_preemptible :
    ¬∀ ops : List PriorityOp, ∀ p, run ops = some p →
      protectedTier p.baseTier = true → p.mayBePreempted = false := by
  intro h
  exact absurd (h [.setBase (.fromU64 1) .system 0] _ rfl rfl) (by decide)

end Priority

end WorkloadFabric
