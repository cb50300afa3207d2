/-
What a reload loses.

A record carries every field of a workload but the counter from which migration
targets draw their ids; a reloaded workload draws from 2000 again.  Only an
accepted `commitMigration` reads the counter (`apply_setCounter`), so

* **`reload_transparent_iff`** — calls answer alike before and after a reload
  exactly when the counter is still at 2000 or the calls accept no migration;
* **`reloaded_migration_differs`** — a second migration after a reload draws the
  id of the first one again.
-/
import WorkloadFabric.RoundTrip
import WorkloadFabric.Authority
import WorkloadFabric.Renaming

namespace WorkloadFabric

/-! ### The counter is read by migrations only -/

/-- The workload with another migration episode counter. -/
def Workload.setCounter (w : Workload) (c : UInt64) : Workload :=
  { w with episodeCounterForMigration := c }

def Effect.setCounter (e : Effect) (c : UInt64) : Effect :=
  { e with workload := e.workload.setCounter c }

theorem WorkloadOp.relabel_one (op : WorkloadOp) : op.relabel 1 = op := by
  cases op <;> rfl

namespace Workload

/-- **Whatever is no migration does not read the counter.** -/
theorem apply_setCounter {w : Workload} {op : WorkloadOp} (h : ¬w.Migrates op) (c : UInt64)
    (ex : Option Explanation) : (w.setCounter c).apply op ex = (w.apply op ex).setCounter c := by
  have hkept := apply_relabel (ρ := 1) (γ := fun _ => c) (fun hm => absurd hm h) ex
  rw [op.relabel_one, relabel_one, Effect.relabel, relabel_one] at hkept
  exact hkept

/-! ### What callers see -/

/-- What the accessors show: everything but the migration episode counter. -/
def visible (w : Workload) : Workload := w.setCounter 0

/-- What each of the calls returns and leaves to be seen. -/
def responses (w : Workload) : List Call → List (Outcome × ExecutionEpisodeId × Workload)
  | [] => []
  | call :: calls =>
    let e := w.apply call.1 call.2
    (e.outcome, e.workload.currentEpisodeId, e.workload.visible) :: e.workload.responses calls

/-- None of the calls is an accepted hand-over to a migration target. -/
def NoMigration (w : Workload) : List Call → Prop
  | [] => True
  | call :: calls =>
    ¬w.Migrates call.1 ∧ (w.apply call.1 call.2).workload.NoMigration calls

/-- Apart from hand-overs the counter stays as it is. -/
theorem Step.counter_eq {w w' : Workload} {op : WorkloadOp} {o : Outcome} (h : Step w op o w')
    (hn : ¬w.Migrates op) : w'.episodeCounterForMigration = w.episodeCounterForMigration := by
  rcases h.standing_cases with hq | ⟨_, _, _, _, -, -, rfl⟩ | ⟨g, worker, boot, rfl, rfl, -⟩ |
    ⟨_, _, _, _, _, _, -, -, -, -, -, -, rfl⟩
  · exact hq.counter
  · exact started_episodeCounterForMigration ..
  · cases h with
    | rejected ho => exact absurd rfl ho
    | commitMigration hg hs => exact absurd ⟨hg, hs⟩ hn
  · rfl

/-- A hand-over leaves an episode with the counter's id at the end. -/
theorem last_of_migrates {w : Workload} {op : WorkloadOp} (h : w.Migrates op)
    (ex : Option Explanation) :
    (w.apply op ex).workload.episodes.getLast?.map (·.id) =
      some (.fromU64 w.episodeCounterForMigration) := by
  cases op with
  | commitMigration g worker boot =>
    have hs := w.apply_step ex (.commitMigration g worker boot)
    generalize (w.apply (.commitMigration g worker boot) ex).outcome = o at hs
    generalize (w.apply (.commitMigration g worker boot) ex).workload = w' at hs ⊢
    cases hs with
    | rejected _ hn => exact absurd h hn
    | commitMigration =>
      obtain ⟨ep, hep, hid, -⟩ := w.migrated_succeeds worker boot
      rw [hep.episodes, List.getLast?_concat, Option.map_some, hid]
  | _ => exact h.elim

/-- **Two counters show exactly in the hand-overs.** -/
theorem responses_setCounter_iff {w : Workload} {c : UInt64}
    (hc : c ≠ w.episodeCounterForMigration) (calls : List Call) :
    (w.setCounter c).responses calls = w.responses calls ↔ w.NoMigration calls := by
  induction calls generalizing w with
  | nil => exact iff_of_true rfl trivial
  | cons call calls ih =>
    rw [responses, responses, NoMigration, List.cons.injEq]
    by_cases hm : w.Migrates call.1
    · refine iff_of_false (fun h => ?_) fun h => h.1 hm
      -- the ids that the two counters draw are seen at the end of the episode lists
      have hvisible := congrArg (fun r => r.2.2.episodes.getLast?.map Episode.id) h.1
      have hm' : (w.setCounter c).Migrates call.1 := hm
      have hlast := last_of_migrates hm' call.2
      have hids : some (UniqueValue.fromU64 c) =
          some (UniqueValue.fromU64 w.episodeCounterForMigration : ExecutionEpisodeId) :=
        hlast.symm.trans (hvisible.trans (last_of_migrates hm call.2))
      exact hc (congrArg UniqueValue.toU64 (Option.some.inj hids))
    · have hcounter := (w.apply_step call.2 call.1).counter_eq hm
      have htail := ih (w := (w.apply call.1 call.2).workload) (by rwa [hcounter])
      rw [apply_setCounter hm]
      exact ⟨fun h => ⟨hm, htail.mp h.2⟩, fun h => ⟨rfl, htail.mpr h.2⟩⟩

/-! ### Reloading -/

end Workload

namespace Reader

open Decoder

/-- A counted list is never longer than its count field can say. -/
theorem ensures_list {α : Type} (item : Reader α) :
    Ensures (fun l : List α => l.length < 2 ^ 32) (list item) :=
  .after fun n => fun s l rest h => (Ensures.many item n.toNat s l rest h).trans_lt n.toNat_lt

theorem ensures_contract (order : EvalOrder) :
    Ensures (fun c : ResourceContract => c.reqs.length < 2 ^ 32 ∧
      c.grant.bindings.length < 2 ^ 32) (contract order) := by
  refine .after fun _ => (ensures_list _).bind fun reqs hr => ?_
  have hgrant : Ensures (fun g : ResourceGrant => g.bindings.length < 2 ^ 32) grant :=
    .after fun _ => .after fun _ => .after fun _ => .after fun _ =>
      (ensures_list _).bind fun _ hb => .pure hb
  exact hgrant.bind fun _ hb => .pure ⟨hr, hb⟩

theorem ensures_dependencyStates (i n : ℕ) (states : List DependencyState) :
    Ensures (fun l : List DependencyState => l.length = states.length)
      (dependencyStates i n states) := by
  induction n generalizing i states with
  | zero => exact .pure rfl
  | succ n ih =>
    refine .after fun s => .ite ?_ (.fail _)
    intro bs l rest h
    rw [ih (i + 1) (states.set i s) bs l rest h, List.length_set]

theorem ensures_dependencies (order : EvalOrder) :
    Ensures (fun d : DependencySet => d.defs.length < 2 ^ 32 ∧ d.states.length < 2 ^ 32)
      (dependencies order) := by
  refine .after fun _ => (ensures_list _).bind fun defs hd => .after fun ns => ?_
  refine (ensures_dependencyStates 0 ns.toNat _).bind fun states hs => .pure ⟨hd, ?_⟩
  rw [hs, List.length_replicate]
  exact hd

/-- Whatever is decoded has lists that fit their count fields. -/
theorem ensures_workload (order : EvalOrder) : Ensures Workload.SizesFit (workload order) := by
  refine .after fun _ => .after fun _ => .after fun _ => .after fun _ => .after fun _ => ?_
  refine .after fun _ => .after fun _ => (ensures_contract order).bind fun _ hc => ?_
  refine (ensures_dependencies order).bind fun _ hd => ?_
  refine .after fun _ => .after fun _ => .after fun _ => .after fun _ => .after fun _ => ?_
  refine .after fun _ => .after fun _ => .after fun _ => .after fun _ => .after fun _ => ?_
  refine .after fun _ => .after fun _ => .after fun _ => .after fun _ => .after fun _ => ?_
  refine (ensures_list _).bind fun _ he => (ensures_list _).bind fun _ hh => .pure ?_
  exact ⟨hc.1, hc.2, hd.1, hd.2, he, hh⟩

end Reader

theorem report_allow {α : Type} {r : Except DecodeError (Workload × α)} {w : Workload}
    (h : report r = some (.allow, w)) : (∃ a, r = .ok (w, a)) ∨ w = {} := by
  rcases r with e | ⟨w', a⟩
  · cases e with
    | terminated => exact absurd h (by simp [report])
    | _ => exact .inr (Prod.mk.inj (Option.some.inj h)).2.symm
  · exact .inl ⟨a, by rw [(Prod.mk.inj (Option.some.inj h)).2]⟩

theorem decoded_sizesFit {order : EvalOrder} {data : List UInt8} {w : Workload}
    (h : decodeWorkload order data = some (.allow, w)) : w.SizesFit := by
  have hdecode : Decoder.Ensures Workload.SizesFit (Workload.decode order) :=
    (Reader.ensures_workload order).bind fun w hw => .after fun _ =>
      .ite (.fail _) (.ite (.fail _) (.pure hw))
  rcases report_allow h with ⟨rest, hr⟩ | rfl
  · cases hframe : Reader.frame data with
    | error e =>
      rw [hframe] at hr
      exact absurd hr (by simp [bind, Except.bind])
    | ok r =>
      rw [hframe] at hr
      exact hdecode r.1 w rest hr
  · exact ⟨by decide, by decide, by decide, by decide, by decide, by decide⟩

namespace Workload

/-- A step leaves the dependencies alone, defines one or observes one. -/
theorem Step.deps_cases {w w' : Workload} {op : WorkloadOp} {o : Outcome} (h : Step w op o w') :
    w'.deps = w.deps ∨ (∃ d, w'.deps = (w.deps.define d).2) ∨
      ∃ i status observed, w'.deps = (w.deps.setStatus i status observed).2 := by
  have hd : w'.deps = (w.regated op).1 := congrArg Prod.fst h.gates
  rw [hd]
  cases op with
  | define d => exact .inr (.inl ⟨d, rfl⟩)
  | setStatus i status observed => exact .inr (.inr ⟨i, status, observed, rfl⟩)
  | _ => exact .inl rfl

theorem Reachable.states_length {w : Workload} (h : Reachable w) :
    w.deps.states.length = w.deps.defs.length := by
  refine h.induction (P := fun w => w.deps.states.length = w.deps.defs.length)
    (fun _ _ _ => rfl) fun {w w'} _ _ hw hs => ?_
  rcases hs.deps_cases with hd | ⟨d, hd⟩ | ⟨i, status, observed, hd⟩
  · rw [hd, hw]
  · rw [hd, DependencySet.define, List.length_append, List.length_append, hw]
    rfl
  · rw [hd, DependencySet.setStatus]
    split
    · exact hw
    · split
      · exact hw
      · exact (List.length_set ..).trans hw

/-- A record that decodes, decodes to the workload with a fresh counter. -/
theorem Reachable.decoded {w w' : Workload} (h : Reachable w) (hw : w.SizesFit)
    (hsize : (encodeWorkload w).length < 2 ^ 64)
    (hd : decodeWorkload .leftToRight (encodeWorkload w) = some (.allow, w')) :
    w' = w.setCounter 2000 := by
  obtain ⟨hyes, hno⟩ := decode_encode .leftToRight hw h.states_length hsize
  by_cases hl : w.Loadable
  · exact (Prod.mk.inj (Option.some.inj (hd.symm.trans (hyes hl)))).2
  · rw [hno hl] at hd
    exact absurd hd (by simp)

/-- **A reload is transparent** to later calls exactly when all lists fit their
count fields and either no migration has drawn an id yet or the calls accept
none. -/
theorem reload_transparent_iff {w w' : Workload} (h : Reachable w)
    (hsize : (encodeWorkload w).length < 2 ^ 64)
    (hd : decodeWorkload .leftToRight (encodeWorkload w) = some (.allow, w'))
    (calls : List Call) :
    (w'.visible = w.visible ∧ w'.currentEpisodeId = w.currentEpisodeId ∧
      w'.responses calls = w.responses calls) ↔
      w.SizesFit ∧ (w.episodeCounterForMigration = 2000 ∨ w.NoMigration calls) := by
  by_cases hw : w.SizesFit
  · obtain rfl := h.decoded hw hsize hd
    by_cases hc : w.episodeCounterForMigration = 2000
    · have hsame : w.setCounter 2000 = w := by rw [setCounter, ← hc]
      rw [hsame]
      exact iff_of_true ⟨rfl, rfl, rfl⟩ ⟨hw, .inl hc⟩
    · have hiff := responses_setCounter_iff (Ne.symm hc) calls
      exact ⟨fun hr => ⟨hw, .inr (hiff.mp hr.2.2)⟩,
        fun hr => ⟨rfl, rfl, hiff.mpr (hr.2.resolve_left hc)⟩⟩
  · -- what was decoded fits its count fields, so a larger workload was cut down
    refine iff_of_false (fun hr => hw ?_) fun hr => hw hr.1
    obtain ⟨h₁, h₂, h₃, h₄, h₅, h₆⟩ := decoded_sizesFit hd
    have hv (f : Workload → ℕ) (hf : ∀ v : Workload, f v.visible = f v) : f w' = f w := by
      rw [← hf w', hr.1, hf w]
    rw [hv (·.contract.reqs.length) fun _ => rfl] at h₁
    rw [hv (·.contract.grant.bindings.length) fun _ => rfl] at h₂
    rw [hv (·.deps.defs.length) fun _ => rfl] at h₃
    rw [hv (·.deps.states.length) fun _ => rfl] at h₄
    rw [hv (·.episodes.length) fun _ => rfl] at h₅
    rw [hv (·.history.length) fun _ => rfl] at h₆
    exact ⟨h₁, h₂, h₃, h₄, h₅, h₆⟩

/-- A fresh workload behaves alike before and after a reload. -/
theorem reload_transparent_fresh :
    ∃ w', decodeWorkload .leftToRight (encodeWorkload (create (.fromU64 1) (text "w") (text "job")))
        = some (.allow, w') ∧
      ∀ calls, w'.responses calls =
        (create (.fromU64 1) (text "w") (text "job")).responses calls := by
  have hfit : (create (.fromU64 1) (text "w") (text "job")).SizesFit :=
    ⟨by decide, by decide, by decide, by decide, by decide, by decide⟩
  have hcontract : (create (.fromU64 1) (text "w") (text "job")).contract.Storable :=
    ⟨fun _ hr => absurd hr List.not_mem_nil, fun _ hb => absurd hb List.not_mem_nil⟩
  have hsize : (encodeWorkload (create (.fromU64 1) (text "w") (text "job"))).length < 2 ^ 64 := by
    decide +kernel
  have hd := (decode_encode .leftToRight hfit rfl hsize).1
    ⟨hcontract, by decide, by decide, by decide⟩
  exact ⟨_, hd, fun calls => ((reload_transparent_iff (reachable_create _ _ _) hsize hd calls).mpr
    ⟨hfit, .inl rfl⟩).2.2⟩

/-- A running workload whose first migration drew the id 2000. -/
def migratedOnce : List Call :=
  [(.setPolicy { migration := { eligibility := .planOnly } }, none),
    (.transition .validating (.fromU64 1) [], none), (.transition .ready (.fromU64 1) [], none),
    (.startEpisode (.fromU64 1) {} {} true, none), (.admitDispatch (.fromU64 1) {} {}, none),
    (.requestMigration (.fromU64 2), none), (.commitMigration (.fromU64 2) {} {}, none)]

/-- Migrated again after a reload, the workload draws 2000 again instead of 2001. -/
theorem reloaded_migration_differs :
    ¬∀ w w' : Workload, Reachable w →
      decodeWorkload .leftToRight (encodeWorkload w) = some (.allow, w') →
      ∀ calls : List Call, w'.visible = w.visible ∧ w'.currentEpisodeId = w.currentEpisodeId ∧
        w'.responses calls = w.responses calls := by
  intro h
  set w := (create (.fromU64 1) (text "w") (text "job")).run migratedOnce
  have hfit : w.SizesFit := ⟨by decide, by decide, by decide, by decide, by decide, by decide⟩
  have hcontract : w.contract.Storable :=
    ⟨fun _ hr => absurd hr List.not_mem_nil, fun _ hb => absurd hb List.not_mem_nil⟩
  have hload : w.Loadable := ⟨hcontract, by decide, by decide, by decide⟩
  have hdecode := (decode_encode .leftToRight hfit rfl (by decide +kernel)).1 hload
  have hcalls := (h w _ ⟨_, _, _, _, rfl⟩ hdecode
    [(.requestMigration (.fromU64 3), none), (.commitMigration (.fromU64 3) {} {}, none)]).2.2
  exact absurd (congrArg (List.map fun r => r.2.1) hcalls) (by decide)

end Workload

end WorkloadFabric
