/-
The generation of a policy, and who looks at it.

The engine stores the policy it is given and compares nothing: the generation in it is the
caller's, and a caller has no way to say which policy the edit was made of.  So the fence
is as good as the editors.  They are modelled here as any number of clients that read the
policy of one workload, keep a copy, and submit edits of their copy, interleaved with any
other calls of the engine.

* **`policy_fenced_iff`** — every accepted edit advances the generation, it never moves
  back, and no edit of a superseded policy is accepted, exactly if every edit submitted
  carries a later generation than the policy it meets, and no copy is older than that
  policy;
* **`superseded_edit_accepted`** — the second of two editors overwrites the first.
-/
import WorkloadFabric.EngineRuns
import Mathlib.Logic.Function.Basic

namespace WorkloadFabric

variable {σ : Type} [StateStore σ]

/-- The policy the call sets on `id`, if it sets one. -/
def EngineCall.policyFor (id : WorkloadId) : EngineCall → Option Policy
  | .on id' (.setPolicy policy) => if id' = id then some policy else none
  | _ => none

theorem EngineCall.policyFor_eq_some_iff {id : WorkloadId} {c : EngineCall} {policy : Policy} :
    c.policyFor id = some policy ↔ c = .on id (.setPolicy policy) := by
  constructor
  · intro h
    cases c with
    | create => exact absurd h (by simp [policyFor])
    | on id' r =>
      cases r with
      | setPolicy policy' =>
        obtain ⟨rfl, hp⟩ := Option.ite_none_right_eq_some.mp h
        rw [Option.some.inj hp]
      | _ => exact absurd h (by simp [policyFor])
  · rintro rfl
    exact if_pos rfl

namespace WorkloadEngine

/-- **The policy of a workload is the last one set.** -/
theorem step_policy {e : WorkloadEngine σ} {id : WorkloadId} {w w' : Workload}
    (h : e.get id = some w) {c : EngineCall} (hw' : (e.step c).2.get id = some w') :
    w'.policy = (c.policyFor id).getD w.policy := by
  rcases hc : c.policyFor id with _ | policy
  · rw [Option.getD_none]
    rcases e.step_get_cases h c with ⟨-, hs⟩ | ⟨r, w'', rfl, hs, hstep⟩
    · rw [Option.some.inj (hw'.symm.trans hs)]
    · rw [Option.some.inj (hw'.symm.trans hs)]
      refine hstep.policy fun p hp => ?_
      cases r with
      | setPolicy => simp [EngineCall.policyFor] at hc
      | _ => simp [Request.operation] at hp
  · obtain rfl := EngineCall.policyFor_eq_some_iff.mp hc
    have hset := (e.step_on_some h (.setPolicy policy)).2.2 id
    rw [if_pos rfl] at hset
    rw [Option.some.inj (hw'.symm.trans hset)]
    rfl

/-- Nobody is refused an edit. -/
theorem setPolicy_allow {e : WorkloadEngine σ} {id : WorkloadId} {w : Workload}
    (h : e.get id = some w) (policy : Policy) :
    (e.step (.on id (.setPolicy policy))).1.outcome = .allow :=
  (e.step_on_some h _).1

end WorkloadEngine

/-! ### Editors -/

/-- What happens around a workload: an editor reads its policy, or submits an edit of the
copy it has read, or the engine gets a call of somebody else. -/
inductive PolicyAction (ι : Type) where
  | read (editor : ι)
  | submit (editor : ι) (edit : Policy → Policy)
  | call (c : EngineCall)

/-- An engine and the copies its editors have read. -/
structure PolicySession (σ ι : Type) where
  engine : WorkloadEngine σ
  copy : ι → Option Policy

namespace PolicySession

open WorkloadEngine

variable {ι : Type} [DecidableEq ι] (id : WorkloadId)

def ofStore (store : Option σ) : PolicySession σ ι := ⟨.ofStore store, fun _ => none⟩

/-- The call of the action; an editor who has read nothing makes none. -/
def toCall (s : PolicySession σ ι) : PolicyAction ι → Option EngineCall
  | .read _ => none
  | .submit editor edit => (s.copy editor).map fun policy => .on id (.setPolicy (edit policy))
  | .call c => some c

def step (s : PolicySession σ ι) (a : PolicyAction ι) : PolicySession σ ι :=
  { engine := match s.toCall id a with
      | some c => (s.engine.step c).2
      | none => s.engine
    copy := match a with
      | .read editor => Function.update s.copy editor ((s.engine.get id).map (·.policy))
      | _ => s.copy }

def run (s : PolicySession σ ι) (as : List (PolicyAction ι)) : PolicySession σ ι :=
  as.foldl (step id) s

/-- The policy the action sets on the workload, if it sets one. -/
def submitted (s : PolicySession σ ι) (a : PolicyAction ι) : Option Policy :=
  (s.toCall id a).bind (·.policyFor id)

/-- What the engine answers. -/
def outcome (s : PolicySession σ ι) (a : PolicyAction ι) : Option Outcome :=
  (s.toCall id a).map fun c => (s.engine.step c).1.outcome

/-- An editor submits an edit of a policy that has been superseded. -/
def SubmitsSuperseded (s : PolicySession σ ι) (w : Workload) (a : PolicyAction ι) : Prop :=
  ∃ editor edit policy, a = .submit editor edit ∧ s.copy editor = some policy ∧
    policy.generation.toU64 < w.policy.generation.toU64

/-- The action passes the fence: an accepted edit advances the generation of the policy,
nothing else touches the policy, and no edit of a superseded policy is accepted. -/
structure PassesFence (s : PolicySession σ ι) (a : PolicyAction ι) : Prop where
  advances : ∀ w w' policy, s.engine.get id = some w → s.submitted id a = some policy →
    s.outcome id a = some .allow → (s.step id a).engine.get id = some w' →
      w.policy.generation.toU64 < w'.policy.generation.toU64
  keeps : ∀ w w', s.engine.get id = some w → s.submitted id a = none →
    (s.step id a).engine.get id = some w' → w'.policy = w.policy
  rejects : ∀ w, s.engine.get id = some w → s.SubmitsSuperseded w a →
    s.outcome id a ≠ some .allow

/-- The editors keep the order: an edit carries a later generation than the policy it
meets, and is made of a copy that is no older. -/
def KeepsOrder (s : PolicySession σ ι) (a : PolicyAction ι) : Prop :=
  ∀ w, s.engine.get id = some w →
    (∀ policy, s.submitted id a = some policy →
      w.policy.generation.toU64 < policy.generation.toU64) ∧ ¬s.SubmitsSuperseded w a

variable {id}

theorem step_engine (s : PolicySession σ ι) (a : PolicyAction ι) : (s.step id a).engine =
    match s.toCall id a with
    | some c => (s.engine.step c).2
    | none => s.engine := rfl

/-- **What an action does to the policy.** -/
theorem step_policy {s : PolicySession σ ι} {a : PolicyAction ι} {w w' : Workload}
    (h : s.engine.get id = some w) (hw' : (s.step id a).engine.get id = some w') :
    w'.policy = (s.submitted id a).getD w.policy := by
  rw [step_engine] at hw'
  rw [submitted]
  rcases hc : s.toCall id a with _ | c
  · rw [hc] at hw'
    rw [Option.some.inj (h.symm.trans hw')]
    rfl
  · rw [hc] at hw'
    exact WorkloadEngine.step_policy h hw'

/-- A registered workload stays registered. -/
theorem step_get {s : PolicySession σ ι} {w : Workload} (h : s.engine.get id = some w)
    (a : PolicyAction ι) : ∃ w', (s.step id a).engine.get id = some w' := by
  rw [step_engine]
  rcases s.toCall id a with _ | c
  · exact ⟨w, h⟩
  · exact registered_append h [c]

omit [DecidableEq ι] in
/-- An edit is accepted as soon as there is a workload to set it on. -/
theorem outcome_of_submitted {s : PolicySession σ ι} {a : PolicyAction ι} {w : Workload}
    {policy : Policy} (h : s.engine.get id = some w) (ha : s.submitted id a = some policy) :
    s.outcome id a = some .allow := by
  obtain ⟨c, hc, hp⟩ := Option.bind_eq_some_iff.mp ha
  obtain rfl := EngineCall.policyFor_eq_some_iff.mp hp
  rw [outcome, hc, Option.map_some, setPolicy_allow h]

/-- **The actions that pass the fence are those that keep the order.** -/
theorem passesFence_iff (s : PolicySession σ ι) (a : PolicyAction ι) :
    s.PassesFence id a ↔ s.KeepsOrder id a := by
  constructor
  · intro hf w hw
    refine ⟨fun policy hp => ?_, fun hsup => ?_⟩
    · obtain ⟨w', hw'⟩ := step_get hw a
      have hlt := hf.advances w w' policy hw hp (outcome_of_submitted hw hp) hw'
      rwa [step_policy hw hw', hp] at hlt
    · refine hf.rejects w hw hsup ?_
      obtain ⟨editor, edit, policy, rfl, hcopy, -⟩ := hsup
      have hp : s.submitted id (.submit editor edit) = some (edit policy) := by
        simp [submitted, toCall, hcopy, EngineCall.policyFor]
      exact outcome_of_submitted hw hp
  · intro hk
    refine ⟨fun w w' policy hw hp _ hw' => ?_, fun w w' hw hp hw' => ?_, fun w hw hsup => ?_⟩
    · rw [step_policy hw hw', hp]
      exact (hk w hw).1 policy hp
    · rw [step_policy hw hw', hp]
      rfl
    · exact absurd hsup (hk w hw).2

/-- The policy does not move back along a run whose actions pass the fence. -/
theorem generation_le_of_fenced {s : PolicySession σ ι} {as : List (PolicyAction ι)}
    (h : Machine.Along (step id) (fun s a => s.PassesFence id a) s as) {w w' : Workload}
    (hw : s.engine.get id = some w) (hw' : (s.run id as).engine.get id = some w') :
    w.policy.generation.toU64 ≤ w'.policy.generation.toU64 := by
  induction as generalizing s w with
  | nil =>
    rw [Option.some.inj (hw.symm.trans hw')]
    exact UInt64.le_refl _
  | cons a as ih =>
    obtain ⟨ha, has⟩ := h
    obtain ⟨w₁, hw₁⟩ := step_get hw a
    refine UInt64.le_trans ?_ (ih has hw₁ hw')
    rcases hp : s.submitted id a with _ | policy
    · rw [ha.keeps w w₁ hw hp hw₁]
      exact UInt64.le_refl _
    · exact UInt64.le_of_lt (ha.advances w w₁ policy hw hp (outcome_of_submitted hw hp) hw₁)

/-- **The policy is fenced exactly as far as the editors keep the order**: in every run of
the engine, interleaved with any number of editors. -/
theorem policy_fenced_iff (store : Option σ) (id : WorkloadId) (as : List (PolicyAction ι)) :
    ((∀ pre a post, as = pre ++ a :: post →
        (((ofStore store).run id pre).PassesFence id a)) ∧
      ∀ pre mid post w w', as = pre ++ mid ++ post →
        ((ofStore store : PolicySession σ ι).run id pre).engine.get id = some w →
        ((ofStore store : PolicySession σ ι).run id (pre ++ mid)).engine.get id = some w' →
          w.policy.generation.toU64 ≤ w'.policy.generation.toU64) ↔
      ∀ pre a post, as = pre ++ a :: post → ((ofStore store).run id pre).KeepsOrder id a := by
  constructor
  · rintro ⟨hfence, -⟩ pre a post heq
    exact (passesFence_iff _ a).mp (hfence pre a post heq)
  · intro horder
    have hfence (pre : List (PolicyAction ι)) (a : PolicyAction ι) (post : List (PolicyAction ι))
        (heq : as = pre ++ a :: post) : ((ofStore store).run id pre).PassesFence id a :=
      (passesFence_iff _ a).mpr (horder pre a post heq)
    refine ⟨hfence, fun pre mid post w w' heq hw hw' => ?_⟩
    have halong := Machine.along_iff.mpr hfence
    rw [heq, Machine.along_append, Machine.along_append] at halong
    rw [run, List.foldl_append] at hw'
    exact generation_le_of_fenced halong.1.2 hw hw'

/-- The edits of two editors who both read the first policy. -/
def twoEdits : List (PolicyAction Bool) :=
  [.call (.create (.fromU64 1) (text "w") (text "job") {}), .read true, .read false,
    .submit true fun p => { p with restart := { maxRestarts := 5 }, generation := .fromU64 1 },
    .submit false fun p => { p with cancelRace := .cancelFirst, generation := .fromU64 1 }]

/-- The second is accepted, and the first is lost. -/
theorem superseded_edit_accepted :
    ¬∀ pre a post, twoEdits = pre ++ a :: post →
      (((ofStore (none : Option (MemoryStateStore .leftToRight))).run (.fromU64 1)
        pre).PassesFence (.fromU64 1) a) := by
  intro h
  have hlast := (h (twoEdits.take 4) _ [] rfl).rejects _ rfl ⟨false, _, _, rfl, rfl, by decide⟩
  exact hlast rfl

end PolicySession

end WorkloadFabric
