/-
Runs of the workload engine.

A call creates a workload or is a request on one; a request on a registered
workload performs exactly one operation on it (`step_on_some`).  What holds of a
workload when it is registered, and survives the requests on it, holds of it
after every run (`workload_induction`); in particular every registered
workload is reachable (`reachable_of_run`).
-/
import WorkloadFabric.Engine
import WorkloadFabric.Lifecycle
import WorkloadFabric.Machine

namespace WorkloadFabric

/-- What can be asked of a registered workload. -/
inductive Request where
  | validate
  | setPolicy (policy : Policy)
  | addDependency (d : DependencyDef)
  | setDependencyStatus (index : ℕ) (status : DependencyStatus) (observed : DependencyGeneration)
  | addResourceRequirement (req : ResourceRequirement)
  | applyGrant (grant : ResourceGrant)
  | settle
  | startEpisode (owner : OwnerId) (ownerGen : OwnerGeneration)
  | admitDispatch (episode : ExecutionEpisodeId) (worker : WorkerId) (boot : WorkerBootId)
  | progress (episode : ExecutionEpisodeId) (epGen : ExecutionEpisodeGeneration)
      (delta : UInt64) (durable : Bool)
  | episodeCompleted (episode : ExecutionEpisodeId)
  | commitCompletion (expecting : WorkloadGeneration)
  | onWorkerLost (worker : WorkerId) (boot : WorkerBootId) (expecting : WorkloadGeneration)
  | planRestart (reason : Text) (expecting : WorkloadGeneration)
  | requestSuspend (expecting : WorkloadGeneration)
  | completeSuspend (expecting : WorkloadGeneration)
  | requestResume (expecting : WorkloadGeneration)
  | requestMigration (expecting : WorkloadGeneration)
  | commitMigration (expecting : WorkloadGeneration) (targetWorker : WorkerId)
      (targetBoot : WorkerBootId)
  | cancel (expecting : WorkloadGeneration)
  | completeCancellation (expecting : WorkloadGeneration)
deriving DecidableEq

/-- A mutating call of the engine. -/
inductive EngineCall where
  | create (id : WorkloadId) (name intent : Text) (policy : Policy)
  | on (id : WorkloadId) (request : Request)
deriving DecidableEq

/-- The operation a request performs; `counter` is the engine's episode counter. -/
def Request.operation (counter : UInt64) (w : Workload) : Request → WorkloadOp
  | .validate => .transition .validating w.generation (text "validate")
  | .setPolicy policy => .setPolicy policy
  | .addDependency d => .define d
  | .setDependencyStatus i status observed => .setStatus i status observed
  | .addResourceRequirement req => .addRequirement req
  | .applyGrant grant => .applyGrant grant
  | .settle => .settle w.generation
  -- every start takes the next id of the engine and advances the generation
  | .startEpisode owner ownerGen => .startEpisode (.fromU64 counter) owner ownerGen true
  | .admitDispatch episode worker boot => .admitDispatch episode worker boot
  | .progress episode epGen delta durable => .reportProgress episode epGen delta durable
  | .episodeCompleted episode => .markEpisodeCompleted episode
  | .commitCompletion g => .commitCompletion g
  | .onWorkerLost worker boot g => .onWorkerLost worker boot g
  | .planRestart reason g => .planRestart g reason
  | .requestSuspend g => .requestSuspend g
  | .completeSuspend g => .completeSuspend g
  | .requestResume g => .requestResume g
  | .requestMigration g => .requestMigration g
  | .commitMigration g worker boot => .commitMigration g worker boot
  | .cancel g => .requestCancellationWorkloadScope g
  | .completeCancellation g => .completeCancellation g

/-- The request that a call makes of a workload. -/
def EngineCall.requestOn (id : WorkloadId) : EngineCall → Option Request
  | .create _ _ _ _ => none
  | .on id' r => if id' = id then some r else none

/-- Whether the request draws an episode id. -/
def Request.draws : Request → Bool
  | .startEpisode _ _ => true
  | _ => false

namespace WorkloadEngine

variable {σ : Type} [StateStore σ]

/-- One call on the engine. -/
def step (e : WorkloadEngine σ) : EngineCall → EngineResult × WorkloadEngine σ
  | .create id name intent policy => e.create id name intent policy
  | .on id request =>
    match request with
    | .validate => e.validate id
    | .setPolicy policy => e.setPolicy id policy
    | .addDependency d => e.addDependency id d
    | .setDependencyStatus i status observed => e.setDependencyStatus id i status observed
    | .addResourceRequirement req => e.addResourceRequirement id req
    | .applyGrant grant => e.applyGrant id grant
    | .settle => e.settle id
    | .startEpisode owner ownerGen => e.startEpisode id owner ownerGen
    | .admitDispatch episode worker boot => e.admitDispatch id episode worker boot
    | .progress episode epGen delta durable => e.progress id episode epGen delta durable
    | .episodeCompleted episode => e.episodeCompleted id episode
    | .commitCompletion g => e.commitCompletion id g
    | .onWorkerLost worker boot g => e.onWorkerLost id worker boot g
    | .planRestart reason g => e.planRestart id reason g
    | .requestSuspend g => e.requestSuspend id g
    | .completeSuspend g => e.completeSuspend id g
    | .requestResume g => e.requestResume id g
    | .requestMigration g => e.requestMigration id g
    | .commitMigration g worker boot => e.commitMigration id g worker boot
    | .cancel g => e.cancel id g
    | .completeCancellation g => e.completeCancellation id g

/-- `WorkloadEngine(store)` -/
def ofStore (store : Option σ) : WorkloadEngine σ := { store := store }

def run (e : WorkloadEngine σ) (calls : List EngineCall) : WorkloadEngine σ :=
  calls.foldl (fun e c => (e.step c).2) e

/-- A call that was made, with the engine before it and its result. -/
structure Event (σ : Type) where
  before : WorkloadEngine σ
  call : EngineCall
  result : EngineResult

/-- The call as it goes on this engine. -/
def observe (e : WorkloadEngine σ) (c : EngineCall) : Event σ := ⟨e, c, (e.step c).1⟩

/-- What happens in a run. -/
def events (e : WorkloadEngine σ) : List EngineCall → List (Event σ)
  | [] => []
  | c :: calls => e.observe c :: events (e.step c).2 calls

theorem run_append_singleton (e : WorkloadEngine σ) (calls : List EngineCall) (c : EngineCall) :
    e.run (calls ++ [c]) = ((e.run calls).step c).2 := by
  rw [run, List.foldl_append]
  rfl

theorem run_append (e : WorkloadEngine σ) (calls calls' : List EngineCall) :
    e.run (calls ++ calls') = (e.run calls).run calls' := List.foldl_append

theorem events_append (e : WorkloadEngine σ) (calls calls' : List EngineCall) :
    e.events (calls ++ calls') = e.events calls ++ (e.run calls).events calls' := by
  induction calls generalizing e with
  | nil => rfl
  | cons c calls ih => exact congrArg (_ :: ·) (ih (e.step c).2)

theorem events_append_singleton (e : WorkloadEngine σ) (calls : List EngineCall)
    (c : EngineCall) :
    e.events (calls ++ [c]) = e.events calls ++ [(e.run calls).observe c] :=
  e.events_append calls [c]

theorem length_events (e : WorkloadEngine σ) (calls : List EngineCall) :
    (e.events calls).length = calls.length := by
  induction calls generalizing e with
  | nil => rfl
  | cons c calls ih => exact congrArg (· + 1) (ih (e.step c).2)

/-- Every event of a run is the call as it goes on the engine it finds. -/
theorem eq_observe_of_mem {e : WorkloadEngine σ} {calls : List EngineCall} {ev : Event σ}
    (h : ev ∈ e.events calls) : ev = ev.before.observe ev.call := by
  induction calls generalizing e with
  | nil => exact absurd h List.not_mem_nil
  | cons c calls ih =>
    rcases List.mem_cons.mp h with rfl | h
    · rfl
    · exact ih h

/-! ### What one call does -/

section Step

variable (e : WorkloadEngine σ)

omit [StateStore σ] in
/-- Registering or replacing a workload touches no other. -/
theorem get_insert (id id' : WorkloadId) (w : Workload) :
    get { e with workloads := e.workloads.insert id w } id' =
      if id = id' then some w else e.get id' := by
  rw [get, Std.TreeMap.getElem?_insert]
  by_cases h : id = id'
  · rw [if_pos h, if_pos (Std.LawfulEqOrd.compare_eq_iff_eq.mpr h)]
  · rw [if_neg h, if_neg (fun hc => h (Std.LawfulEqOrd.compare_eq_iff_eq.mp hc))]
    rfl

theorem withWorkload_none {id : WorkloadId} (h : e.get id = none) (mutate : Workload → Effect) :
    e.withWorkload id mutate = ({ outcome := .rejectWorkloadNotFound }, e) := by
  rw [withWorkload, h]

theorem withWorkload_some {id : WorkloadId} {w : Workload} (h : e.get id = some w)
    (mutate : Workload → Effect) :
    (e.withWorkload id mutate).1.outcome = (mutate w).outcome ∧
      (e.withWorkload id mutate).2.episodeCounter = e.episodeCounter ∧
      ∀ id', (e.withWorkload id mutate).2.get id' =
        if id = id' then some (mutate w).workload else e.get id' := by
  rw [withWorkload, h]
  refine ⟨rfl, ?_, fun id' => ?_⟩
  · simp only
    split <;> rfl
  · simp only
    split <;> exact e.get_insert id id' _

/-- A request on a workload that is not registered changes nothing. -/
theorem step_on_none {id : WorkloadId} (h : e.get id = none) (r : Request) :
    e.step (.on id r) = ({ outcome := .rejectWorkloadNotFound }, e) := by
  cases r
  case validate => rw [step, validate, h]
  case startEpisode => rw [step, startEpisode, h]
  all_goals exact e.withWorkload_none h _

/-- **A request on a registered workload performs one operation on it.** -/
theorem step_on_some {id : WorkloadId} {w : Workload} (h : e.get id = some w) (r : Request) :
    (e.step (.on id r)).1.outcome = (w.apply (r.operation e.episodeCounter w) none).outcome ∧
      (e.step (.on id r)).2.episodeCounter =
        (if r.draws then e.episodeCounter + 1 else e.episodeCounter) ∧
      ∀ id', (e.step (.on id r)).2.get id' =
        if id = id' then some (w.apply (r.operation e.episodeCounter w) none).workload
        else e.get id' := by
  cases r
  case validate =>
    rw [step, validate, h]
    exact e.withWorkload_some h _
  case startEpisode =>
    rw [step, startEpisode, h]
    exact withWorkload_some { e with episodeCounter := e.episodeCounter + 1 } h _
  all_goals exact e.withWorkload_some h _

theorem step_create_some {id : WorkloadId} {w : Workload} (h : e.get id = some w)
    (name intent : Text) (policy : Policy) :
    e.step (.create id name intent policy) = ({ outcome := .rejectDuplicateWorkload }, e) := by
  rw [step, create, h]

/-- A fresh workload is registered under its policy. -/
theorem step_create_none {id : WorkloadId} (h : e.get id = none) (name intent : Text)
    (policy : Policy) :
    (e.step (.create id name intent policy)).1.outcome = .allow ∧
      (e.step (.create id name intent policy)).2.episodeCounter = e.episodeCounter ∧
      ∀ id', (e.step (.create id name intent policy)).2.get id' =
        if id = id' then some { Workload.create id name intent with policy := policy }
        else e.get id' := by
  rw [step, create, h]
  exact ⟨rfl, rfl, fun id' => e.get_insert id id' _⟩

end Step

/-! ### Runs -/

/-- The request on `id` that the event accepted, if it accepted one. -/
def Event.accepted (id : WorkloadId) (ev : Event σ) : Option Request :=
  match ev.call with
  | .create _ _ _ _ => none
  | .on id' r => if id' = id ∧ ev.result.outcome = .allow then some r else none

omit [StateStore σ] in
theorem Event.accepted_eq_some {id : WorkloadId} {ev : Event σ} {r : Request} :
    ev.accepted id = some r ↔ ev.call = .on id r ∧ ev.result.outcome = .allow := by
  rw [Event.accepted]
  rcases ev.call with _ | ⟨id', r'⟩
  · simp
  · simp only [Option.ite_none_right_eq_some, Option.some.injEq, EngineCall.on.injEq]
    tauto

theorem accepted_observe {e : WorkloadEngine σ} {id : WorkloadId} {r r' : Request} :
    (e.observe (.on id r)).accepted id = some r' ↔
      r = r' ∧ (e.step (.on id r)).1.outcome = .allow := by
  rw [Event.accepted_eq_some, observe, EngineCall.on.injEq]
  tauto

/-- The operation that the event accepted on `id`, with the workload it found. -/
def Event.performed (id : WorkloadId) (ev : Event σ) : Option (Workload × WorkloadOp) :=
  match ev.accepted id, ev.before.get id with
  | some r, some w => some (w, r.operation ev.before.episodeCounter w)
  | _, _ => none

omit [StateStore σ] in
theorem Event.performed_of_silent {id : WorkloadId} {ev : Event σ} (h : ev.accepted id = none) :
    ev.performed id = none := by
  rw [Event.performed, h]

theorem performed_observe {e : WorkloadEngine σ} {id : WorkloadId} {w : Workload}
    (h : e.get id = some w) (r : Request) : (e.observe (.on id r)).performed id =
      if (e.step (.on id r)).1.outcome = .allow then some (w, r.operation e.episodeCounter w)
      else none := by
  rw [Event.performed, show (e.observe (.on id r)).before.get id = some w from h]
  by_cases ho : (e.step (.on id r)).1.outcome = .allow
  · rw [if_pos ho, accepted_observe.mpr ⟨rfl, ho⟩]
    rfl
  · have hn : (e.observe (.on id r)).accepted id = none :=
      Option.eq_none_iff_forall_ne_some.mpr fun r' hr => ho (accepted_observe.mp hr).2
    rw [if_neg ho, hn]

/-- The call can change the workload registered under `id`. -/
def Touches (id : WorkloadId) : EngineCall → Prop
  | .create _ _ _ _ => False
  | .on id' _ => id' = id

/-- A call that is no request on a registered workload leaves it alone. -/
theorem step_get_of_not_touches (e : WorkloadEngine σ) {id : WorkloadId} {w : Workload}
    (h : e.get id = some w) {c : EngineCall} (hc : ¬Touches id c) :
    (e.step c).2.get id = some w := by
  cases c with
  | create id' name intent policy =>
    cases h' : e.get id' with
    | some w' =>
      rw [e.step_create_some h']
      exact h
    | none =>
      have hne : id' ≠ id := by
        rintro rfl
        rw [h] at h'
        exact absurd h' (by simp)
      rw [(e.step_create_none h' name intent policy).2.2, if_neg hne, h]
  | on id' r =>
    cases h' : e.get id' with
    | none =>
      rw [e.step_on_none h']
      exact h
    | some w' =>
      have hne : id' ≠ id := hc
      rw [(e.step_on_some h' r).2.2, if_neg hne, h]

/-- A workload that is not registered can only be registered afresh. -/
theorem step_get_none (e : WorkloadEngine σ) {id : WorkloadId} (h : e.get id = none)
    (c : EngineCall) :
    (e.step c).2.get id = none ∨
    ∃ name intent policy, c = .create id name intent policy ∧
      (e.step c).2.get id = some { Workload.create id name intent with policy := policy } := by
  cases c with
  | create id' name intent policy =>
    cases h' : e.get id' with
    | some w' => exact .inl (by rw [e.step_create_some h', h])
    | none =>
      rw [(e.step_create_none h' name intent policy).2.2]
      by_cases hid : id' = id
      · subst hid
        exact .inr ⟨name, intent, policy, rfl, if_pos rfl⟩
      · exact .inl (by rw [if_neg hid, h])
  | on id' r =>
    cases h' : e.get id' with
    | none => exact .inl (by rw [e.step_on_none h', h])
    | some w' =>
      have hne : id' ≠ id := by
        rintro rfl
        rw [h] at h'
        exact absurd h' (by simp)
      exact .inl (by rw [(e.step_on_some h' r).2.2, if_neg hne, h])

/-- **What one call can do to a registered workload.** -/
theorem step_get_cases (e : WorkloadEngine σ) {id : WorkloadId} {w : Workload}
    (h : e.get id = some w) (c : EngineCall) :
    ((∀ r, c ≠ .on id r) ∧ (e.step c).2.get id = some w) ∨
    ∃ r w', c = .on id r ∧ (e.step c).2.get id = some w' ∧
      w.Step (r.operation e.episodeCounter w) (e.step c).1.outcome w' := by
  by_cases hc : Touches id c
  · cases c with
    | create => exact hc.elim
    | on id' r =>
      obtain rfl : id' = id := hc
      obtain ⟨ho, -, hw⟩ := e.step_on_some h r
      refine .inr ⟨r, _, rfl, (hw id').trans (if_pos rfl), ?_⟩
      rw [ho]
      exact w.apply_step none _
  · refine .inl ⟨?_, e.step_get_of_not_touches h hc⟩
    rintro r rfl
    exact hc rfl

/-- A request on a registered workload takes a step. -/
theorem step_on_step (e : WorkloadEngine σ) {id : WorkloadId} {w : Workload}
    (h : e.get id = some w) (r : Request) :
    ∃ w', (e.step (.on id r)).2.get id = some w' ∧
      w.Step (r.operation e.episodeCounter w) (e.step (.on id r)).1.outcome w' := by
  rcases e.step_get_cases h (.on id r) with ⟨hne, -⟩ | ⟨r', w', hr, hw', hs⟩
  · exact absurd rfl (hne r)
  · obtain rfl : r = r' := (EngineCall.on.inj hr).2
    exact ⟨w', hw', hs⟩

/-- What the requests on a workload preserve survives every call. -/
theorem preserved_step {id : WorkloadId} {q : Workload → Prop}
    (hq : ∀ {counter : UInt64} {r : Request} {w w' : Workload} {o : Outcome},
      q w → w.Step (r.operation counter w) o w' → q w')
    {e : WorkloadEngine σ} (h : ∃ w, e.get id = some w ∧ q w) (c : EngineCall) :
    ∃ w, (e.step c).2.get id = some w ∧ q w := by
  obtain ⟨w, hw, hqw⟩ := h
  rcases e.step_get_cases hw c with ⟨-, hs⟩ | ⟨r, w', -, hs, hstep⟩
  · exact ⟨w, hs, hqw⟩
  · exact ⟨w', hs, hq hqw hstep⟩

/-- What the requests on a workload preserve is never lost. -/
theorem preserved_run {id : WorkloadId} {q : Workload → Prop}
    (hq : ∀ {counter : UInt64} {r : Request} {w w' : Workload} {o : Outcome},
      q w → w.Step (r.operation counter w) o w' → q w')
    {e : WorkloadEngine σ} (h : ∃ w, e.get id = some w ∧ q w) (calls : List EngineCall) :
    ∃ w, (e.run calls).get id = some w ∧ q w :=
  Machine.invariant_run (K := fun _ _ => True)
    (I := fun e : WorkloadEngine σ => ∃ w, e.get id = some w ∧ q w)
    (fun _ c _ h => preserved_step hq h c) h (Machine.along_of_forall fun _ _ _ => trivial)

/-- A workload once registered stays registered. -/
theorem registered_append {e : WorkloadEngine σ} {id : WorkloadId} {w : Workload}
    (h : e.get id = some w) (calls : List EngineCall) : ∃ w', (e.run calls).get id = some w' := by
  obtain ⟨w', hw', -⟩ :=
    preserved_run (q := fun _ => True) (fun _ _ => trivial) ⟨w, h, trivial⟩ calls
  exact ⟨w', hw'⟩

/-- Before a workload is registered no event finds it. -/
theorem before_of_unregistered {e : WorkloadEngine σ} {id : WorkloadId} {calls : List EngineCall}
    (h : (e.run calls).get id = none) : ∀ ev ∈ e.events calls, ev.before.get id = none := by
  induction calls generalizing e with
  | nil => exact fun ev hev => absurd hev List.not_mem_nil
  | cons c calls ih =>
    intro ev hev
    rcases List.mem_cons.mp hev with rfl | hev
    · cases hw : e.get id with
      | none => exact hw
      | some w =>
        -- had it been registered here, it would still be at the end
        obtain ⟨w', h'⟩ := registered_append hw (c :: calls)
        rw [h] at h'
        exact absurd h' (by simp)
    · exact ih h ev hev

/-- Nothing is accepted on a workload before it is registered. -/
theorem events_of_unregistered {e : WorkloadEngine σ} {id : WorkloadId} {calls : List EngineCall}
    (h : (e.run calls).get id = none) : ∀ ev ∈ e.events calls, ev.accepted id = none := by
  intro ev hev
  have hnone := before_of_unregistered h ev hev
  rw [eq_observe_of_mem hev, Option.eq_none_iff_forall_ne_some]
  intro r hr
  obtain ⟨hc, ho⟩ := Event.accepted_eq_some.mp hr
  have hc : ev.call = .on id r := hc
  simp only [observe, hc, step_on_none _ hnone r, reduceCtorEq] at ho

/-- **What holds of a workload when it is registered and survives every request
on it holds of it after every run.** -/
theorem workload_induction {store : Option σ} {id : WorkloadId}
    {P : List EngineCall → Workload → Prop}
    (hcreate : ∀ calls name intent policy, ((ofStore store).run calls).get id = none →
      P (calls ++ [.create id name intent policy])
        { Workload.create id name intent with policy := policy })
    (hother : ∀ calls c w, ((ofStore store).run calls).get id = some w → ¬Touches id c →
      P calls w → P (calls ++ [c]) w)
    (hop : ∀ calls r w, ((ofStore store).run calls).get id = some w → P calls w →
      P (calls ++ [.on id r])
        (w.apply (r.operation ((ofStore store).run calls).episodeCounter w) none).workload)
    (calls : List EngineCall) {w : Workload} (h : ((ofStore store).run calls).get id = some w) :
    P calls w := by
  induction calls using List.reverseRecOn generalizing w with
  | nil => exact absurd h (by simp [ofStore, run, get])
  | append_singleton calls c ih =>
    rw [run_append_singleton] at h
    set e := (ofStore store).run calls with he
    cases hw : e.get id with
    | some w₀ =>
      -- registered before the call: a request on it, or nothing to it
      by_cases hc : Touches id c
      · cases c with
        | create => exact hc.elim
        | on id' r =>
          obtain rfl : id' = id := hc
          rw [(e.step_on_some hw r).2.2, if_pos rfl, Option.some.injEq] at h
          rw [← h]
          exact hop calls r w₀ hw (ih hw)
      · rw [e.step_get_of_not_touches hw hc, Option.some.injEq] at h
        rw [← h]
        exact hother calls c w₀ hw hc (ih hw)
    | none =>
      rcases e.step_get_none hw c with hn | ⟨name, intent, policy, rfl, hs⟩
      · rw [hn] at h
        exact absurd h (by simp)
      · rw [hs, Option.some.injEq] at h
        rw [← h]
        exact hcreate calls name intent policy hw

/-- The same, told by the events of the run: nothing is accepted on `id` before it
is registered, and one step is taken with every request on it. -/
theorem history_induction {store : Option σ} {id : WorkloadId}
    {P : List (Event σ) → Workload → Prop}
    (hcreate : ∀ evs name intent policy, (∀ ev ∈ evs, ev.accepted id = none) →
      P evs { Workload.create id name intent with policy := policy })
    (hskip : ∀ evs ev w, ev.accepted id = none → P evs w → P (evs ++ [ev]) w)
    (hop : ∀ evs (e : WorkloadEngine σ) r w w', e.get id = some w → P evs w →
      w.Step (r.operation e.episodeCounter w) (e.step (.on id r)).1.outcome w' →
      P (evs ++ [e.observe (.on id r)]) w')
    (calls : List EngineCall) {w : Workload} (h : ((ofStore store).run calls).get id = some w) :
    P ((ofStore store).events calls) w := by
  refine workload_induction (P := fun calls w => P ((ofStore store).events calls) w)
    ?_ ?_ ?_ calls h
  · intro calls name intent policy hnone
    refine hcreate _ name intent policy fun ev hev => ?_
    rw [events_append_singleton] at hev
    rcases List.mem_append.mp hev with hev | hev
    · exact events_of_unregistered hnone ev hev
    · rw [List.mem_singleton.mp hev]
      rfl
  · intro calls c w _ hc hw
    rw [events_append_singleton]
    refine hskip _ _ _ ?_ hw
    cases c with
    | create => rfl
    | on id' r => exact if_neg fun hid => hc hid.1
  · intro calls r w hw hP
    rw [events_append_singleton]
    refine hop _ _ r w _ hw hP ?_
    rw [(((ofStore store).run calls).step_on_some hw r).1]
    exact w.apply_step none _

/-- Every registered workload is reachable by lifecycle operations. -/
theorem reachable_of_run {store : Option σ} {calls : List EngineCall} {id : WorkloadId}
    {w : Workload} (h : ((ofStore store).run calls).get id = some w) : w.Reachable := by
  refine workload_induction (P := fun _ w => w.Reachable) ?_ ?_ ?_ calls h
  · intro _ name intent policy _
    exact (Workload.reachable_create id name intent).apply (.setPolicy policy) none
  · exact fun _ _ _ _ _ hr => hr
  · exact fun _ r _ _ hr => hr.apply _ none

/-! ### Requests along a run -/

/-- What is asked of the requests on `id`, as something asked of the calls. -/
theorem along_on_iff {e : WorkloadEngine σ} {id : WorkloadId}
    {G : WorkloadEngine σ → Workload → Request → Prop} {calls : List EngineCall} :
    (∀ pre r post w, calls = pre ++ .on id r :: post → (e.run pre).get id = some w →
      G (e.run pre) w r) ↔
      Machine.Along (fun e c => (step e c).2)
        (fun e c => ∀ r w, c = .on id r → e.get id = some w → G e w r) e calls := by
  rw [Machine.along_iff]
  constructor
  · rintro h pre c post heq r w rfl hw
    exact h pre r post w heq hw
  · exact fun h pre r post w heq hw => h pre (.on id r) post heq r w rfl hw

/-- **A call keeps a property exactly when it makes no bad request**, if the good requests
on the workload are those that keep it. -/
theorem step_keeps_iff {e : WorkloadEngine σ} {id : WorkloadId} {w : Workload}
    {p : Workload → Prop} {G : Workload → Request → Prop} (h : e.get id = some w) (hp : p w)
    (hgood : ∀ {r : Request} {w' : Workload} {o : Outcome},
      w.Step (r.operation e.episodeCounter w) o w' → (p w' ↔ G w r)) (c : EngineCall) :
    (∀ w', (e.step c).2.get id = some w' → p w') ↔
      ∀ r w', c = .on id r → e.get id = some w' → G w' r := by
  rcases e.step_get_cases h c with ⟨hne, hs⟩ | ⟨r, w', rfl, hs, hstep⟩
  · refine iff_of_true (fun w' hw' => ?_) fun r _ hc => absurd hc (hne r)
    exact Option.some.inj (hs.symm.trans hw') ▸ hp
  · rw [hs, h]
    constructor
    · rintro h' _ _ hc ⟨⟩
      obtain ⟨-, rfl⟩ := EngineCall.on.inj hc
      exact (hgood hstep).mp (h' w' rfl)
    · rintro h' _ ⟨⟩
      exact (hgood hstep).mpr (h' r w rfl rfl)

/-- Every request on `id` is good for the workload it finds. -/
def Throughout (store : Option σ) (id : WorkloadId) (good : Workload → Request → Prop)
    (calls : List EngineCall) : Prop :=
  ∀ pre r post w, calls = pre ++ .on id r :: post → ((ofStore store).run pre).get id = some w →
    good w r

section Throughout

variable {id : WorkloadId} {I p : Workload → Prop} {good : Workload → Request → Prop}

/-- What is asked of the calls of an engine when it is asked of the requests on
`id`. -/
theorem throughout_iff_along {store : Option σ} {calls : List EngineCall} :
    Throughout store id good calls ↔
      Machine.Along (fun e c => (step e c).2)
        (fun e c => ∀ r w, c = .on id r → e.get id = some w → good w r) (ofStore store) calls :=
  along_on_iff (G := fun _ => good)

variable (hfresh : ∀ name intent policy,
    I { Workload.create id name intent with policy := policy } ∧
      p { Workload.create id name intent with policy := policy })
  (hstep : ∀ {counter : UInt64} {r : Request} {w w' : Workload} {o : Outcome}, I w →
    w.Step (r.operation counter w) o w' → I w' ∧ (p w → (p w' ↔ good w r)))

include hfresh hstep

/-- The invariant of a workload, as one of the engine. -/
theorem invariant_step (e : WorkloadEngine σ) (c : EngineCall)
    (h : ∀ w, e.get id = some w → I w) : ∀ w, (e.step c).2.get id = some w → I w := by
  intro w' hw'
  cases hw : e.get id with
  | none =>
    rcases e.step_get_none hw c with hn | ⟨name, intent, policy, -, hs⟩
    · rw [hn] at hw'
      exact absurd hw' (by simp)
    · rw [hs, Option.some_inj] at hw'
      exact hw' ▸ (hfresh name intent policy).1
  | some w =>
    rcases e.step_get_cases hw c with ⟨-, hs⟩ | ⟨r, w'', -, hs, hstep'⟩
    · rw [hs, Option.some_inj] at hw'
      exact hw' ▸ h w hw
    · rw [hs, Option.some_inj] at hw'
      exact hw' ▸ (hstep (h w hw) hstep').1

/-- The good requests, as the good calls of the engine. -/
theorem kept_step_iff (e : WorkloadEngine σ) (c : EngineCall)
    (h : ∀ w, e.get id = some w → I w) (hp : ∀ w, e.get id = some w → p w) :
    (∀ w, (e.step c).2.get id = some w → p w) ↔
      ∀ r w, c = .on id r → e.get id = some w → good w r := by
  cases hw : e.get id with
  | none =>
    refine iff_of_true (fun w' hw' => ?_) fun _ _ _ h => absurd h (by simp)
    rcases e.step_get_none hw c with hn | ⟨name, intent, policy, -, hs⟩
    · rw [hn] at hw'
      exact absurd hw' (by simp)
    · rw [hs, Option.some_inj] at hw'
      exact hw' ▸ (hfresh name intent policy).2
  | some w =>
    have hiff := step_keeps_iff hw (hp w hw) (fun hs => (hstep (h w hw) hs).2 (hp w hw)) c
    rwa [hw] at hiff

/-- **A property holds throughout a run exactly when every request on the workload is
good**, if the good requests are those that keep it. -/
theorem always_iff_throughout (store : Option σ) (calls : List EngineCall) :
    (∀ pre post w, calls = pre ++ post → ((ofStore store).run pre).get id = some w → p w) ↔
      Throughout store id good calls := by
  have hnone (w : Workload) : (ofStore store).get id ≠ some w := by simp [ofStore, get]
  rw [throughout_iff_along, ← Machine.always_iff_along (K := fun _ _ => True)
    (I := fun e => ∀ w, e.get id = some w → I w) (P := fun e => ∀ w, e.get id = some w → p w)
    (fun e c _ => invariant_step hfresh hstep e c) (fun e c _ => kept_step_iff hfresh hstep e c)
    (fun w hw => absurd hw (hnone w)) (fun w hw => absurd hw (hnone w))
    (Machine.along_of_forall fun _ _ _ => trivial)]
  exact ⟨fun h pre post heq w hw => h pre post w heq hw,
    fun h pre post w heq hw => h pre post heq w hw⟩

/-- **The last state tells**, if the property stays lost once it is lost. -/
theorem last_iff_throughout
    (hlost : ∀ {counter : UInt64} {r : Request} {w w' : Workload} {o : Outcome}, I w →
      w.Step (r.operation counter w) o w' → ¬p w → ¬p w')
    {store : Option σ} {calls : List EngineCall} {w : Workload}
    (h : ((ofStore store).run calls).get id = some w) :
    p w ↔ Throughout store id good calls := by
  have hnone (w : Workload) : (ofStore store).get id ≠ some w := by simp [ofStore, get]
  have hlost' (e : WorkloadEngine σ) (c : EngineCall) (hI : ∀ w, e.get id = some w → I w)
      (hn : ¬∀ w, e.get id = some w → p w) : ¬∀ w, (e.step c).2.get id = some w → p w := by
    rw [not_forall] at hn
    obtain ⟨w, hw⟩ := hn
    obtain ⟨hw, hpw⟩ := Classical.not_imp.mp hw
    intro hall
    rcases e.step_get_cases hw c with ⟨-, hs⟩ | ⟨r, w', -, hs, hstep'⟩
    · exact hpw (hall w hs)
    · exact hlost (hI w hw) hstep' hpw (hall w' hs)
  rw [throughout_iff_along, ← Machine.last_iff_along (K := fun _ _ => True)
    (I := fun e => ∀ w, e.get id = some w → I w) (P := fun e => ∀ w, e.get id = some w → p w)
    (fun e c _ => invariant_step hfresh hstep e c) (fun e c _ => kept_step_iff hfresh hstep e c)
    (fun e c _ => hlost' e c) (fun w hw => absurd hw (hnone w))
    (fun w hw => absurd hw (hnone w)) (Machine.along_of_forall fun _ _ _ => trivial)]
  constructor
  · intro hpw w' hw'
    obtain rfl := Option.some.inj (h.symm.trans hw')
    exact hpw
  · exact fun hall => hall w h

end Throughout

/-! ### Operations along a run -/

/-- Every operation that the calls perform on `id` is good for the workload it finds. -/
def Performing (e : WorkloadEngine σ) (id : WorkloadId) (good : Workload → WorkloadOp → Prop)
    (calls : List EngineCall) : Prop :=
  ∀ pre r post w, calls = pre ++ .on id r :: post → (e.run pre).get id = some w →
    good w (r.operation (e.run pre).episodeCounter w)

theorem performing_iff_along {e : WorkloadEngine σ} {id : WorkloadId}
    {good : Workload → WorkloadOp → Prop} {calls : List EngineCall} :
    Performing e id good calls ↔
      Machine.Along (fun e c => (step e c).2)
        (fun e c => ∀ r w, c = .on id r → e.get id = some w →
          good w (r.operation e.episodeCounter w)) e calls :=
  along_on_iff (G := fun e w r => good w (r.operation e.episodeCounter w))

/-- **What a workload has stays with it throughout a run exactly when every operation on it
is good**, if the good operations are those that keep it. -/
theorem kept_iff_performing {K : Workload → Workload → Prop} {good : Workload → WorkloadOp → Prop}
    (hrefl : ∀ w, K w w) (htrans : ∀ {w w' w''}, K w w' → K w' w'' → K w w'')
    (hkeep : ∀ {op : WorkloadOp} {o : Outcome} {w w' : Workload}, w.Step op o w' →
      (K w w' ↔ good w op)) (e : WorkloadEngine σ) (id : WorkloadId) (calls : List EngineCall) :
    (∀ pre mid post w w', calls = pre ++ mid ++ post → (e.run pre).get id = some w →
        (e.run (pre ++ mid)).get id = some w' → K w w') ↔ Performing e id good calls := by
  have hstep (e : WorkloadEngine σ) (c : EngineCall) :
      (∀ w, e.get id = some w → ∃ w', (e.step c).2.get id = some w' ∧ K w w') ↔
        ∀ r w, c = .on id r → e.get id = some w → good w (r.operation e.episodeCounter w) := by
    cases hw : e.get id with
    | none => exact iff_of_true (fun _ h => nomatch h) fun _ _ _ h => nomatch h
    | some w =>
      have hiff := step_keeps_iff (p := K w)
        (G := fun w r => good w (r.operation e.episodeCounter w)) hw (hrefl w)
        (fun hs => hkeep hs) c
      rw [hw] at hiff
      rw [← hiff]
      constructor
      · intro h w' hw'
        obtain ⟨w'', hw'', hk⟩ := h w rfl
        obtain rfl := Option.some.inj (hw''.symm.trans hw')
        exact hk
      · rintro h _ ⟨⟩
        obtain ⟨w', hw'⟩ := registered_append hw [c]
        exact ⟨w', hw', h w' hw'⟩
  rw [performing_iff_along, ← Machine.kept_iff_along
    (R := fun e e' => ∀ w, get e id = some w → ∃ w', get e' id = some w' ∧ K w w')
    (fun e w hw => ⟨w, hw, hrefl w⟩) (fun h h' w hw => ?_) hstep]
  · constructor
    · intro h pre mid post heq w hw
      obtain ⟨w', hw'⟩ := registered_append hw mid
      have hw' : (e.run (pre ++ mid)).get id = some w' := by
        rw [run_append]
        exact hw'
      exact ⟨w', hw', h pre mid post w w' heq hw hw'⟩
    · intro h pre mid post w w' heq hw hw'
      obtain ⟨w'', hw'', hk⟩ := h pre mid post heq w hw
      obtain rfl := Option.some.inj (hw''.symm.trans hw')
      exact hk
  · obtain ⟨w', hw', hk⟩ := h w hw
    obtain ⟨w'', hw'', hk'⟩ := h' w' hw'
    exact ⟨w'', hw'', htrans hk hk'⟩

/-- **A registered workload keeps a property throughout a continuation exactly when every
operation on it is good**, if under the invariant the good operations are those that keep
it. -/
theorem always_iff_performing {id : WorkloadId} {I p : Workload → Prop}
    {good : Workload → WorkloadOp → Prop}
    (hinv : ∀ {counter : UInt64} {r : Request} {o : Outcome} {w w' : Workload},
      w.Step (r.operation counter w) o w' → I w → I w')
    (hstep : ∀ {counter : UInt64} {r : Request} {o : Outcome} {w w' : Workload},
      w.Step (r.operation counter w) o w' → I w → p w → (p w' ↔ good w (r.operation counter w)))
    {e : WorkloadEngine σ} {w : Workload} (h : e.get id = some w) (hI : I w) (hp : p w)
    (calls : List EngineCall) :
    (∀ pre post w', calls = pre ++ post → (e.run pre).get id = some w' → p w') ↔
      Performing e id good calls := by
  have hpe (e : WorkloadEngine σ) (c : EngineCall) (h : ∃ w, e.get id = some w ∧ I w)
      (hp : ∀ w, e.get id = some w → p w) : (∀ w, (e.step c).2.get id = some w → p w) ↔
        ∀ r w, c = .on id r → e.get id = some w → good w (r.operation e.episodeCounter w) := by
    obtain ⟨w, hw, hI⟩ := h
    exact step_keeps_iff (G := fun w r => good w (r.operation e.episodeCounter w)) hw
      (hp w hw) (fun hs => hstep hs hI (hp w hw)) c
  rw [performing_iff_along, ← Machine.always_iff_along (K := fun _ _ => True)
    (I := fun e => ∃ w, get e id = some w ∧ I w) (P := fun e => ∀ w, get e id = some w → p w)
    (fun _ c _ h => preserved_step (fun hI hs => hinv hs hI) h c) (fun e c _ => hpe e c) ⟨w, h, hI⟩
    (fun w' hw' => Option.some.inj (h.symm.trans hw') ▸ hp)
    (Machine.along_of_forall fun _ _ _ => trivial)]
  exact ⟨fun h pre post heq w hw => h pre post w heq hw,
    fun h pre post w heq hw => h pre post heq w hw⟩

/-- **What further calls make of a registered workload**, request by request. -/
theorem run_requests {e : WorkloadEngine σ} {id : WorkloadId} {w : Workload}
    {P : List Request → Workload → Prop} (h : e.get id = some w) (hnil : P [] w)
    {more : List EngineCall}
    (hstep : ∀ {rs : List Request} {r : Request} {w' w'' : Workload} {counter : UInt64}
      {o : Outcome}, r ∈ more.filterMap (·.requestOn id) → P rs w' →
        w'.Step (r.operation counter w') o w'' → P (rs ++ [r]) w'') :
    ∃ w', (e.run more).get id = some w' ∧ P (more.filterMap (·.requestOn id)) w' := by
  induction more using List.reverseRecOn with
  | nil => exact ⟨w, h, hnil⟩
  | append_singleton more c ih =>
    rw [List.filterMap_append] at hstep ⊢
    obtain ⟨w', hw', hp⟩ := ih fun hr => hstep (List.mem_append_left _ hr)
    rw [run_append_singleton]
    rcases (e.run more).step_get_cases hw' c with ⟨hc, hw''⟩ | ⟨r, w'', rfl, hw'', hs⟩
    · have hnone : c.requestOn id = none := by
        cases c with
        | create => rfl
        | on id' r =>
          rw [EngineCall.requestOn, if_neg]
          rintro rfl
          exact hc r rfl
      refine ⟨w', hw'', ?_⟩
      rwa [List.filterMap_cons_none hnone, List.filterMap_nil, List.append_nil]
    · have hsome : (EngineCall.on id r).requestOn id = some r := if_pos rfl
      rw [List.filterMap_cons_some hsome, List.filterMap_nil] at hstep ⊢
      exact ⟨w'', hw'', hstep (List.mem_append_right _ (List.mem_singleton_self r)) hp hs⟩

/-- The calls that register a workload and bring it to its first episode. -/
def launch (id : WorkloadId) (policy : Policy) : List EngineCall :=
  [.create id (text "w") (text "job") policy, .on id .validate, .on id (.applyGrant {}),
    .on id .settle, .on id (.startEpisode (.fromU64 1) (.fromU64 1))]

/-- Its first episode is moved to a second worker, which is lost, and a third one is started. -/
def relocate (id : WorkloadId) : List EngineCall :=
  launch id
      { restart := { kind := .alwaysWithLimit, maxRestarts := 1 }
        migration := { eligibility := .planOnly } } ++
    [.on id (.admitDispatch (.fromU64 1000) (.fromU64 1) (.fromU64 1)),
      .on id (.progress (.fromU64 1000) (.fromU64 1) 3 true),
      .on id (.requestMigration (.fromU64 2)),
      .on id (.commitMigration (.fromU64 2) (.fromU64 2) (.fromU64 1)),
      .on id (.progress (.fromU64 2000) (.fromU64 1) 5 true),
      .on id (.onWorkerLost (.fromU64 2) (.fromU64 1) (.fromU64 3)),
      .on id (.planRestart (text "WORKER_LOSS") (.fromU64 3)),
      .on id (.startEpisode (.fromU64 2) (.fromU64 1))]

end WorkloadEngine

end WorkloadFabric
