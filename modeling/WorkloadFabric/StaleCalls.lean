/-
Calls behind the fence.

Ten requests present a generation.  The fence of a workload counts its incarnations
and never runs back, so a generation once passed is passed for good: the 64-bit counter
does not come round to it before there are more episodes than a vector can hold.

* **`stale_calls_invisible`** — a call that presents a passed generation is turned away
  and leaves the engine and its store as they are; and any set of such calls can be
  struck from a run without another call noticing.
-/
import WorkloadFabric.Authority

namespace WorkloadFabric

/-- The generation that a fenced request presents. -/
def Request.fence : Request → Option WorkloadGeneration
  | .commitCompletion g => some g
  | .onWorkerLost _ _ g => some g
  | .planRestart _ g => some g
  | .requestSuspend g => some g
  | .completeSuspend g => some g
  | .requestResume g => some g
  | .requestMigration g => some g
  | .commitMigration g _ _ => some g
  | .cancel g => some g
  | .completeCancellation g => some g
  | _ => none

/-- Every fenced operation asks for the generation first. -/
theorem Workload.apply_stale {w : Workload} {r : Request} {g : WorkloadGeneration}
    (hr : r.fence = some g) (hg : g ≠ w.generation) (counter : UInt64) :
    w.apply (r.operation counter w) none = ⟨.rejectStaleWorkloadGeneration, w, none⟩ := by
  cases r with
  | commitCompletion | onWorkerLost | planRestart | requestSuspend | completeSuspend
  | requestResume | requestMigration | commitMigration | cancel | completeCancellation =>
    obtain rfl := Option.some.inj hr
    exact if_pos hg
  | _ => exact absurd hr (by simp [Request.fence])

namespace WorkloadEngine

variable {σ : Type} [StateStore σ]

/-! ### Engines that cannot be told apart -/

/-- The same workloads, the same store and the same episode counter. -/
structure Same (e e' : WorkloadEngine σ) : Prop where
  workloads : e.workloads.Equiv e'.workloads
  store : e.store = e'.store
  episodeCounter : e.episodeCounter = e'.episodeCounter

namespace Same

variable {e e' e'' : WorkloadEngine σ}

omit [StateStore σ]

theorem refl (e : WorkloadEngine σ) : Same e e := ⟨.rfl, rfl, rfl⟩

theorem trans (h : Same e e') (h' : Same e' e'') : Same e e'' :=
  ⟨h.workloads.trans h'.workloads, h.store.trans h'.store,
    h.episodeCounter.trans h'.episodeCounter⟩

theorem get (h : Same e e') (id : WorkloadId) : e.get id = e'.get id := h.workloads.getElem?_eq

theorem insert (h : Same e e') (id : WorkloadId) (w : Workload) :
    Same { e with workloads := e.workloads.insert id w }
      { e' with workloads := e'.workloads.insert id w } :=
  ⟨h.workloads.insert id w, h.store, h.episodeCounter⟩

/-- Replacing a workload by itself. -/
theorem insert_self {id : WorkloadId} {w : Workload} (h : e.get id = some w) :
    Same { e with workloads := e.workloads.insert id w } e := by
  refine ⟨.of_forall_constGet?_eq fun id' => ?_, rfl, rfl⟩
  have hins := e.get_insert id id' w
  rw [WorkloadEngine.get, WorkloadEngine.get] at hins
  rw [hins]
  split
  case isTrue hid => exact hid ▸ h.symm
  case isFalse => rfl

end Same

theorem Same.persist {e e' : WorkloadEngine σ} (h : Same e e') (w : Workload) :
    Same (e.persist w) (e'.persist w) :=
  ⟨h.workloads, congrArg (Option.map fun s => (StateStore.save s w).2) h.store, h.episodeCounter⟩

theorem Same.withWorkload {e e' : WorkloadEngine σ} (h : Same e e') (id : WorkloadId)
    (mutate : Workload → Effect) :
    (e.withWorkload id mutate).1 = (e'.withWorkload id mutate).1 ∧
      Same (e.withWorkload id mutate).2 (e'.withWorkload id mutate).2 := by
  rw [WorkloadEngine.withWorkload, WorkloadEngine.withWorkload, ← h.get id]
  cases e.get id with
  | none => exact ⟨rfl, h⟩
  | some w =>
    refine ⟨rfl, ?_⟩
    simp only
    split
    · exact (h.insert id _).persist _
    · exact h.insert id _

/-- **Such engines answer every call alike.** -/
theorem Same.step {e e' : WorkloadEngine σ} (c : EngineCall) (h : Same e e') :
    (e.step c).1 = (e'.step c).1 ∧ Same (e.step c).2 (e'.step c).2 := by
  cases c with
  | create id name intent policy =>
    rw [WorkloadEngine.step, WorkloadEngine.step, WorkloadEngine.create, WorkloadEngine.create,
      ← h.get id]
    cases e.get id with
    | none => exact ⟨rfl, (h.insert id _).persist _⟩
    | some w => exact ⟨rfl, h⟩
  | on id r =>
    cases r with
    | validate =>
      rw [WorkloadEngine.step, WorkloadEngine.step, validate, validate, ← h.get id]
      cases e.get id with
      | none => exact ⟨rfl, h⟩
      | some w =>
        obtain ⟨hr, hs⟩ := h.withWorkload id fun w =>
          w.transition .validating w.generation (text "validate") none
        exact ⟨by simp only [hr], hs⟩
    | startEpisode owner ownerGen =>
      rw [WorkloadEngine.step, WorkloadEngine.step, startEpisode, startEpisode, ← h.get id,
        ← h.episodeCounter]
      cases e.get id with
      | none => exact ⟨rfl, h⟩
      | some w =>
        have hdraw : Same { e with episodeCounter := e.episodeCounter + 1 }
            { e' with episodeCounter := e.episodeCounter + 1 } := ⟨h.workloads, h.store, rfl⟩
        obtain ⟨hr, hs⟩ := hdraw.withWorkload id fun w =>
          w.startEpisode (.fromU64 e.episodeCounter) owner ownerGen true none
        exact ⟨by simp only [hr], hs⟩
    | _ => exact h.withWorkload id _

/-- A call that is turned away, and leaves its workload as it is, changes nothing. -/
theorem withWorkload_refused {e : WorkloadEngine σ} {id : WorkloadId} {w : Workload}
    (h : e.get id = some w) {mutate : Workload → Effect} (ho : (mutate w).outcome ≠ .allow)
    (hw : (mutate w).workload = w) :
    (e.withWorkload id mutate).1.outcome = (mutate w).outcome ∧
      Same (e.withWorkload id mutate).2 e := by
  rw [withWorkload, h]
  simp only [hw, if_neg fun hallow => ho ((isAllow_iff _).mp hallow)]
  exact ⟨trivial, Same.insert_self h⟩

/-! ### Behind the fence -/

/-- **A request that does not present the current generation changes nothing.** -/
theorem step_stale (e : WorkloadEngine σ) {id : WorkloadId} {w : Workload} {r : Request}
    {g : WorkloadGeneration} (h : e.get id = some w) (hr : r.fence = some g)
    (hg : g ≠ w.generation) :
    (e.step (.on id r)).1.outcome = .rejectStaleWorkloadGeneration ∧
      Same (e.step (.on id r)).2 e := by
  have happly := w.apply_stale hr hg e.episodeCounter
  have ho : (w.apply (r.operation e.episodeCounter w) none).outcome =
      .rejectStaleWorkloadGeneration := by rw [happly]
  have hw : (w.apply (r.operation e.episodeCounter w) none).workload = w := by rw [happly]
  rw [← ho]
  have hne : (w.apply (r.operation e.episodeCounter w) none).outcome ≠ .allow := by rw [ho]; simp
  cases r with
  | commitCompletion | onWorkerLost | planRestart | requestSuspend | completeSuspend
  | requestResume | requestMigration | commitMigration | cancel | completeCancellation =>
    exact withWorkload_refused h hne hw
  | _ => exact absurd hr (by simp [Request.fence])

/-- The incarnations of a workload are never taken back. -/
theorem episodes_mono {e : WorkloadEngine σ} {id : WorkloadId} {w : Workload}
    (h : e.get id = some w) (calls : List EngineCall) :
    ∃ w', (e.run calls).get id = some w' ∧ w.episodes.length ≤ w'.episodes.length := by
  refine preserved_run (q := fun w' => w.episodes.length ≤ w'.episodes.length) ?_
    ⟨w, h, Nat.le_refl _⟩ calls
  intro counter r w₁ w₂ o hle hs
  by_cases hi : Workload.Incarnates (r.operation counter w₁) ∧ o = .allow
  · have hlen := ((hi.2 ▸ hs).incarnation (r.fencing counter w₁) hi.1).2
    omega
  · have hlen := (hs.no_incarnation hi).2
    omega

/-- The request presents a generation that the workload had moved past in the run.  There are
fewer than 2 ^ 64 incarnations, and where `g` is 0 one fewer still: the episodes are in a
`std::vector`, whose size is far below. -/
def StaleCall (store : Option σ) (calls : List EngineCall) (id : WorkloadId) (r : Request) : Prop :=
  ∃ g, r.fence = some g ∧
    (∃ pre post w, calls = pre ++ post ∧ ((ofStore store).run pre).get id = some w ∧
      g.toU64 < w.generation.toU64) ∧
    ∀ w, ((ofStore store).run calls).get id = some w →
      1 + w.episodes.length < 2 ^ 64 + g.toU64.toNat

/-- **A passed generation is not the current one.** -/
theorem StaleCall.ne {store : Option σ} {calls : List EngineCall} {id : WorkloadId} {r : Request}
    (h : StaleCall store calls id r) :
    ∃ g w, r.fence = some g ∧ ((ofStore store).run calls).get id = some w ∧ g ≠ w.generation := by
  obtain ⟨g, hr, ⟨pre, post, w₀, rfl, hw₀, hlt⟩, hround⟩ := h
  obtain ⟨w, hw, hle⟩ := episodes_mono hw₀ post
  rw [← run_append] at hw
  refine ⟨g, w, hr, hw, ?_⟩
  rintro rfl
  -- both generations count episodes, the later one no fewer
  have hfence₀ := (authority_of_run hw₀).fence
  have hfence := (authority_of_run hw).fence
  have hround := hround w hw
  rw [UInt64.lt_iff_toNat_lt] at hlt
  omega

/-- **Stale fences are invisible.**  A call that presents a passed generation is turned
away and changes neither engine nor store; and striking any set of such calls from a
run changes no other result, nor what the run leaves behind. -/
theorem stale_calls_invisible (store : Option σ) :
    (∀ calls id r, StaleCall store calls id r →
      (((ofStore store).run calls).step (.on id r)).1.outcome = .rejectStaleWorkloadGeneration ∧
        Same (((ofStore store).run calls).step (.on id r)).2 ((ofStore store).run calls)) ∧
    ∀ calls : List (Bool × EngineCall),
      (∀ pre c post, calls = pre ++ (false, c) :: post →
        ∃ id r, c = .on id r ∧ StaleCall store (pre.map (·.2)) id r) →
      Machine.heard step (ofStore store) calls =
          Machine.responses step (ofStore store) (Machine.struck calls) ∧
        Same ((ofStore store).run (calls.map (·.2)))
          ((ofStore store).run (Machine.struck calls)) := by
  have hstale (calls : List EngineCall) (id : WorkloadId) (r : Request)
      (h : StaleCall store calls id r) :
      (((ofStore store).run calls).step (.on id r)).1.outcome = .rejectStaleWorkloadGeneration ∧
        Same (((ofStore store).run calls).step (.on id r)).2 ((ofStore store).run calls) := by
    obtain ⟨g, w, hr, hw, hg⟩ := h.ne
    exact step_stale _ hw hr hg
  refine ⟨hstale, fun calls hstruck => ?_⟩
  refine Machine.heard_of_silent (E := Same) Same.trans Same.step (Same.refl _) ?_
  rw [Machine.along_iff]
  rintro pre ⟨kept, c⟩ post heq rfl
  obtain ⟨id, r, rfl, h⟩ := hstruck pre c post heq
  have hrun : pre.foldl (fun e a => (step e a.2).2) (ofStore store) =
      (ofStore store).run (pre.map (·.2)) := by
    rw [run, List.foldl_map]
  rw [hrun]
  exact (hstale _ id r h).2

/-- The workload was launched at generation 2, so a cancellation at generation 1 is
stale. -/
theorem stale_calls_invisible_launched :
    (((ofStore (none : Option (MemoryStateStore .leftToRight))).run
      (launch (.fromU64 1) {})).step (.on (.fromU64 1) (.cancel (.fromU64 1)))).1.outcome =
      .rejectStaleWorkloadGeneration := by
  refine ((stale_calls_invisible none).1 _ _ _ ⟨.fromU64 1, rfl, ?_, ?_⟩).1
  · exact ⟨launch (.fromU64 1) {}, [], _, rfl, rfl, by decide⟩
  · intro w hw
    have hlen : w.episodes.length = 1 := by
      obtain rfl := Option.some.inj hw
      rfl
    rw [hlen]
    decide

end WorkloadEngine

end WorkloadFabric
