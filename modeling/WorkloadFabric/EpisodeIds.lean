/-
Where episode ids come from.

The engine draws the ids of new episodes from one counter for all workloads, from
1000 on, and draws even for a request that is then rejected; every workload draws
the ids of its migration targets from a counter of its own, from 2000 on.  The ids
of a workload are exactly these draws (`Drawn`), so

* **`episode_ids_unique_iff`** — ids are unique, and searches by id find the
  intended episode, exactly when no episode was started with an id that a
  migration draws;
* **`migrated_id_drawn_again`** — the engine gets there after a thousand requests.
-/
import WorkloadFabric.Authority

namespace WorkloadFabric

namespace Workload

/-! ### One step -/

/-- The ids of the episodes, oldest first. -/
def episodeIds (w : Workload) : List ExecutionEpisodeId := w.episodes.map (·.id)

theorem episodeIds_modifyEpisode (w : Workload) {id : ExecutionEpisodeId} {f : Episode → Episode}
    (hf : ∀ e, (f e).id = e.id) : (w.modifyEpisode id f).episodeIds = w.episodeIds :=
  FirstMatch.map_modifyFirst hf _

theorem Quiet.episodeIds {w w' : Workload} (h : Quiet w w') : w'.episodeIds = w.episodeIds := by
  have hids := congrArg (List.map (·.1)) h.standing
  rwa [List.map_map, List.map_map] at hids

theorem Succeeds.episodeIds {w w' : Workload} {ep : Episode} (h : Succeeds w w' ep) :
    w'.episodeIds = w.episodeIds ++ [ep.id] := by
  rw [Workload.episodeIds, h.episodes, List.map_append, revokeAuthority, List.map_map]
  rfl

/-- **How a step draws ids.** -/
theorem Step.ids_cases {w w' : Workload} {op : WorkloadOp} {o : Outcome} (h : Step w op o w') :
    (¬(Incarnates op ∧ o = .allow) ∧ w'.episodeIds = w.episodeIds ∧
      w'.episodeCounterForMigration = w.episodeCounterForMigration) ∨
    (∃ id owner ownerGen adv, op = .startEpisode id owner ownerGen adv ∧ o = .allow ∧
      w'.episodeIds = w.episodeIds ++ [id] ∧
      w'.episodeCounterForMigration = w.episodeCounterForMigration) ∨
    (∃ g worker boot, op = .commitMigration g worker boot ∧ o = .allow ∧
      w'.episodeIds = w.episodeIds ++ [.fromU64 w.episodeCounterForMigration] ∧
      w'.episodeCounterForMigration = w.episodeCounterForMigration + 1) := by
  by_cases hi : Incarnates op ∧ o = .allow
  · obtain ⟨hop, rfl⟩ := hi
    cases h with
    | rejected ho => exact absurd rfl ho
    | @start id owner ownerGen adv =>
      obtain ⟨ep, hs, rfl, -⟩ := w.started_succeeds id owner ownerGen adv
      exact .inr (.inl ⟨_, _, _, _, rfl, rfl, hs.episodeIds,
        started_episodeCounterForMigration ..⟩)
    | @commitMigration _ worker boot =>
      obtain ⟨ep, hs, hid, -⟩ := w.migrated_succeeds worker boot
      exact .inr (.inr ⟨_, _, _, rfl, rfl, hid ▸ hs.episodeIds,
        migrated_episodeCounterForMigration ..⟩)
    | _ => exact hop.elim
  · left
    rcases h.standing_cases with hq | ⟨_, _, _, _, rfl, rfl, -⟩ | ⟨_, _, _, rfl, rfl, -⟩ |
      ⟨_, _, _, _, _, _, -, -, -, -, -, -, rfl⟩
    · exact ⟨hi, hq.episodeIds, hq.counter⟩
    · exact absurd ⟨trivial, rfl⟩ hi
    · exact absurd ⟨trivial, rfl⟩ hi
    · exact ⟨hi, episodeIds_modifyEpisode _ fun _ => rfl, rfl⟩

/-- Where ids are unique, a search by id stops at the intended episode. -/
theorem findEpisode_of_nodup {w : Workload} (h : w.episodeIds.Nodup) {ep : Episode}
    (hep : ep ∈ w.episodes) : w.findEpisode ep.id = some ep :=
  FirstMatch.find?_of_nodup (k := Episode.id) h hep

end Workload

namespace WorkloadEngine

variable {σ : Type}

/-! ### The draws of a run -/

/-- The id the event starts an episode of `id` with. -/
def Event.drawn (id : WorkloadId) (ev : Event σ) : Option UInt64 :=
  match ev.accepted id with
  | some (.startEpisode _ _) => some ev.before.episodeCounter
  | _ => none

/-- Whether the event commits a migration of `id`. -/
def Event.migrated (id : WorkloadId) (ev : Event σ) : Bool :=
  match ev.accepted id with
  | some (.commitMigration _ _ _) => true
  | _ => false

theorem drawn_eq_none {id : WorkloadId} {ev : Event σ}
    (h : ∀ owner ownerGen, ev.accepted id ≠ some (.startEpisode owner ownerGen)) :
    ev.drawn id = none := by
  rw [Event.drawn]
  split
  · rename_i owner ownerGen hacc
    exact absurd hacc (h owner ownerGen)
  · rfl

theorem migrated_eq_false {id : WorkloadId} {ev : Event σ}
    (h : ∀ g worker boot, ev.accepted id ≠ some (.commitMigration g worker boot)) :
    ev.migrated id = false := by
  rw [Event.migrated]
  split
  · rename_i g worker boot hacc
    exact absurd hacc (h g worker boot)
  · rfl

/-- The ids the engine drew for the episodes of `id`. -/
def draws (id : WorkloadId) (evs : List (Event σ)) : List UInt64 := evs.filterMap (Event.drawn id)

/-- The number of migrations of `id`. -/
def migrations (id : WorkloadId) (evs : List (Event σ)) : ℕ := evs.countP (Event.migrated id)

/-- The ids that `m` migrations draw. -/
def targets (m : ℕ) : List UInt64 := (List.range m).map fun i => 2000 + .ofNat i

/-- The ids of the episodes are the ids that were drawn. -/
structure Drawn (id : WorkloadId) (evs : List (Event σ)) (w : Workload) : Prop where
  ids : w.episodeIds.Perm ((draws id evs ++ targets (migrations id evs)).map .fromU64)
  counter : w.episodeCounterForMigration = 2000 + .ofNat (migrations id evs)

namespace Drawn

variable {id : WorkloadId} {evs : List (Event σ)} {ev : Event σ} {w w' : Workload}

/-- An event that neither starts nor migrates draws nothing. -/
theorem skip (h : Drawn id evs w) (hd : ev.drawn id = none) (hm : ev.migrated id = false)
    (hids : w'.episodeIds = w.episodeIds)
    (hc : w'.episodeCounterForMigration = w.episodeCounterForMigration) :
    Drawn id (evs ++ [ev]) w' := by
  have hdraws : draws id (evs ++ [ev]) = draws id evs := by simp [draws, hd]
  have hmigrations : migrations id (evs ++ [ev]) = migrations id evs := by simp [migrations, hm]
  exact ⟨by rw [hids, hdraws, hmigrations]; exact h.ids, by rw [hc, hmigrations]; exact h.counter⟩

theorem start (h : Drawn id evs w) {c : UInt64} (hd : ev.drawn id = some c)
    (hm : ev.migrated id = false) (hids : w'.episodeIds = w.episodeIds ++ [.fromU64 c])
    (hc : w'.episodeCounterForMigration = w.episodeCounterForMigration) :
    Drawn id (evs ++ [ev]) w' := by
  have hdraws : draws id (evs ++ [ev]) = draws id evs ++ [c] := by simp [draws, hd]
  have hmigrations : migrations id (evs ++ [ev]) = migrations id evs := by simp [migrations, hm]
  refine ⟨?_, by rw [hc, hmigrations]; exact h.counter⟩
  rw [hids, hdraws, hmigrations, List.append_assoc, List.map_append]
  refine (h.ids.append_right _).trans ?_
  rw [List.map_append, List.append_assoc, List.map_append]
  exact List.perm_append_comm.append_left _

theorem migrate (h : Drawn id evs w) (hd : ev.drawn id = none) (hm : ev.migrated id = true)
    (hids : w'.episodeIds = w.episodeIds ++ [.fromU64 w.episodeCounterForMigration])
    (hc : w'.episodeCounterForMigration = w.episodeCounterForMigration + 1) :
    Drawn id (evs ++ [ev]) w' := by
  have hdraws : draws id (evs ++ [ev]) = draws id evs := by simp [draws, hd]
  have hmigrations : migrations id (evs ++ [ev]) = migrations id evs + 1 := by
    simp [migrations, hm]
  have htargets : targets (migrations id evs + 1) =
      targets (migrations id evs) ++ [2000 + .ofNat (migrations id evs)] := by
    simp [targets, List.range_succ]
  constructor
  · rw [hids, hdraws, hmigrations, htargets, ← List.append_assoc, List.map_append, h.counter]
    exact h.ids.append_right _
  · rw [hc, hmigrations, h.counter, UInt64.ofNat_add, UInt64.add_assoc]
    rfl

end Drawn

/-! ### Runs -/

variable [StateStore σ]

/-- **The ids of the episodes are the ids that were drawn**, after every run. -/
theorem drawn_of_run {store : Option σ} {calls : List EngineCall} {id : WorkloadId}
    {w : Workload} (h : ((ofStore store).run calls).get id = some w) :
    Drawn id ((ofStore store).events calls) w := by
  refine history_induction (P := fun evs w => Drawn id evs w) ?_ ?_ ?_ calls h
  · intro evs name intent policy hsilent
    -- a fresh workload has no episodes, and nothing was drawn for it
    have hdraws : draws id evs = [] := by
      refine List.filterMap_eq_nil_iff.mpr fun ev hev => ?_
      rw [Event.drawn, hsilent ev hev]
    have hmigrations : migrations id evs = 0 := by
      refine List.countP_eq_zero.mpr fun ev hev => ?_
      rw [Event.migrated, hsilent ev hev]
      decide
    exact ⟨by rw [hdraws, hmigrations]; exact .nil, by rw [hmigrations]; rfl⟩
  · intro evs ev w hev hw
    exact hw.skip (by rw [Event.drawn, hev]) (by rw [Event.migrated, hev]) rfl rfl
  · intro evs e r w w' _ hw hs
    rcases hs.ids_cases with ⟨hn, hids, hc⟩ | ⟨ep, owner, ownerGen, adv, hop, ho, hids, hc⟩ |
      ⟨g, worker, boot, hop, ho, hids, hc⟩
    · refine hw.skip (drawn_eq_none fun owner ownerGen h => ?_)
        (migrated_eq_false fun g worker boot h => ?_) hids hc
      · obtain ⟨rfl, ho⟩ := accepted_observe.mp h
        exact hn ⟨trivial, ho⟩
      · obtain ⟨rfl, ho⟩ := accepted_observe.mp h
        exact hn ⟨trivial, ho⟩
    · cases r <;> simp only [Request.operation, reduceCtorEq, WorkloadOp.startEpisode.injEq] at hop
      obtain ⟨rfl, -⟩ := hop
      have haccepted := accepted_observe.mpr ⟨rfl, ho⟩
      exact hw.start (by rw [Event.drawn, haccepted]; rfl) (by rw [Event.migrated, haccepted])
        hids hc
    · cases r <;> simp only [Request.operation, reduceCtorEq] at hop
      have haccepted := accepted_observe.mpr ⟨rfl, ho⟩
      exact hw.migrate (by rw [Event.drawn, haccepted]) (by rw [Event.migrated, haccepted]) hids hc

/-- A call draws the current value of the counter, or none. -/
theorem step_counter (e : WorkloadEngine σ) (id : WorkloadId) (c : EngineCall) :
    ((e.step c).2.episodeCounter = e.episodeCounter ∧ (e.observe c).drawn id = none) ∨
    ((e.step c).2.episodeCounter = e.episodeCounter + 1 ∧
      ∀ d, (e.observe c).drawn id = some d → d = e.episodeCounter) := by
  have hdraw : ∀ d, (e.observe c).drawn id = some d → d = e.episodeCounter := by
    intro d hd
    rw [Event.drawn] at hd
    split at hd
    · exact (Option.some.inj hd).symm
    · exact absurd hd (by simp)
  -- only `startEpisode` on a registered workload draws, accepted or not
  cases c with
  | create id' name intent policy =>
    left
    cases h : e.get id' with
    | none => exact ⟨(e.step_create_none h name intent policy).2.1, rfl⟩
    | some w => exact ⟨by rw [e.step_create_some h], rfl⟩
  | on id' r =>
    cases h : e.get id' with
    | none =>
      refine .inl ⟨by rw [e.step_on_none h], drawn_eq_none fun owner ownerGen hacc => ?_⟩
      have ho := (Event.accepted_eq_some.mp hacc).2
      simp only [observe, e.step_on_none h, reduceCtorEq] at ho
    | some w =>
      obtain ⟨-, hc, -⟩ := e.step_on_some h r
      cases hr : r.draws with
      | true =>
        rw [hr, if_pos rfl] at hc
        exact .inr ⟨hc, hdraw⟩
      | false =>
        rw [hr, if_neg (by decide)] at hc
        refine .inl ⟨hc, drawn_eq_none fun owner ownerGen hacc => ?_⟩
        obtain ⟨-, rfl⟩ := EngineCall.on.inj (Event.accepted_eq_some.mp hacc).1
        exact Bool.noConfusion hr

/-- Below `2 ^ 64` calls the engine draws every id once. -/
theorem draws_increasing {store : Option σ} (id : WorkloadId) (calls : List EngineCall)
    (hlen : calls.length + 1000 < 2 ^ 64) :
    (draws id ((ofStore store).events calls)).Pairwise (· < ·) ∧
      (∀ c ∈ draws id ((ofStore store).events calls),
        c < ((ofStore store).run calls).episodeCounter) ∧
      ((ofStore store).run calls).episodeCounter.toNat ≤ 1000 + calls.length := by
  induction calls using List.reverseRecOn with
  | nil => exact ⟨.nil, fun c hc => absurd hc List.not_mem_nil, le_rfl⟩
  | append_singleton calls c ih =>
    rw [List.length_append, List.length_singleton] at hlen ⊢
    obtain ⟨hsorted, hlt, hle⟩ := ih (by omega)
    rw [events_append_singleton, run_append_singleton]
    set e := (ofStore store).run calls
    have hdraws : draws id ((ofStore store).events calls ++ [e.observe c]) =
        draws id ((ofStore store).events calls) ++ ((e.observe c).drawn id).toList := by
      rw [draws, List.filterMap_append]
      cases h : (e.observe c).drawn id <;> simp [draws, h]
    rw [hdraws]
    -- each draw takes the counter to a value not seen before
    rcases e.step_counter id c with ⟨hc, hd⟩ | ⟨hc, hd⟩
    · rw [hc, hd, Option.toList_none, List.append_nil]
      exact ⟨hsorted, hlt, by omega⟩
    · have hnat : (e.episodeCounter + 1).toNat = e.episodeCounter.toNat + 1 := by
        rw [UInt64.toNat_add, UInt64.toNat_one]
        omega
      have hnew : ∀ d ∈ ((e.observe c).drawn id).toList, d = e.episodeCounter := fun d h =>
        hd d (Option.mem_toList.mp h)
      refine ⟨?_, fun d h => ?_, by rw [hc]; omega⟩
      · refine List.pairwise_append.mpr ⟨hsorted, ?_, fun a ha b hb => by
          rw [hnew b hb]
          exact hlt a ha⟩
        cases (e.observe c).drawn id <;> simp
      · rw [hc, UInt64.lt_iff_toNat_lt, hnat]
        rcases List.mem_append.mp h with h | h
        · have := UInt64.lt_iff_toNat_lt.mp (hlt d h)
          omega
        · rw [hnew d h]
          omega

/-! ### Unique ids -/

/-- What `m` migrations draw, as numbers. -/
theorem mem_targets {m : ℕ} (hm : 2000 + m ≤ 2 ^ 64) (c : UInt64) :
    c ∈ targets m ↔ 2000 ≤ c.toNat ∧ c.toNat < 2000 + m := by
  have hnat {i : ℕ} (hi : i < m) : (2000 + UInt64.ofNat i).toNat = 2000 + i := by
    rw [UInt64.toNat_add, UInt64.toNat_ofNat_of_lt' (show i < 2 ^ 64 by omega),
      show (2000 : UInt64).toNat = 2000 from rfl, Nat.mod_eq_of_lt (by omega)]
  rw [targets, List.mem_map]
  constructor
  · rintro ⟨i, hi, rfl⟩
    have hi := List.mem_range.mp hi
    rw [hnat hi]
    omega
  · rintro ⟨hle, hlt⟩
    refine ⟨c.toNat - 2000, List.mem_range.mpr (by omega), UInt64.toNat_inj.mp ?_⟩
    rw [hnat (by omega)]
    omega

theorem nodup_targets {m : ℕ} (hm : m ≤ 2 ^ 64) : (targets m).Nodup := by
  refine List.nodup_range.map_on fun i hi j hj h => ?_
  have hi := List.mem_range.mp hi
  have hj := List.mem_range.mp hj
  have h' := congrArg UInt64.toNat (UInt64.add_right_inj _ |>.mp h)
  rwa [UInt64.toNat_ofNat_of_lt' (hi.trans_le hm), UInt64.toNat_ofNat_of_lt' (hj.trans_le hm)] at h'

omit [StateStore σ] in
/-- Draws that increase clash with nothing but the migration targets. -/
theorem Drawn.nodup_iff {id : WorkloadId} {evs : List (Event σ)} {w : Workload}
    (h : Drawn id evs w) (hsorted : (draws id evs).Pairwise (· < ·))
    (hm : 2000 + migrations id evs ≤ 2 ^ 64) :
    w.episodeIds.Nodup ↔ ∀ c ∈ draws id evs,
      c.toNat < 2000 ∨ 2000 + migrations id evs ≤ c.toNat := by
  have hinj : Function.Injective (UniqueValue.fromU64 : UInt64 → ExecutionEpisodeId) :=
    fun _ _ heq => congrArg UniqueValue.toU64 heq
  have hdraws : (draws id evs).Nodup := hsorted.imp fun hlt => UInt64.ne_of_lt hlt
  -- each source is free of repetitions, so only a clash between the two can repeat an id
  rw [h.ids.nodup_iff, List.nodup_map_iff hinj, List.nodup_append]
  constructor
  · intro ⟨_, _, hdisjoint⟩ c hc
    by_contra hn
    exact hdisjoint c hc c ((mem_targets hm c).mpr (by omega)) rfl
  · intro hcond
    refine ⟨hdraws, nodup_targets (by omega), fun c hc d hd heq => ?_⟩
    subst heq
    have := (mem_targets hm c).mp hd
    have := hcond c hc
    omega

/-- **Episode ids are unique exactly when no episode was started with an id that
a migration draws.** -/
theorem episode_ids_unique_iff (store : Option σ) (calls : List EngineCall) (id : WorkloadId)
    (w : Workload) (h : ((ofStore store).run calls).get id = some w)
    (hlen : 2000 + calls.length ≤ 2 ^ 64) :
    (w.episodeIds.Nodup ∧ ∀ ep ∈ w.episodes, w.findEpisode ep.id = some ep) ↔
      ∀ c ∈ draws id ((ofStore store).events calls),
        c.toNat < 2000 ∨ 2000 + migrations id ((ofStore store).events calls) ≤ c.toNat := by
  have hdrawn := drawn_of_run h
  have hmigrations : migrations id ((ofStore store).events calls) ≤ calls.length := by
    refine List.countP_le_length.trans ?_
    rw [length_events]
  have hiff := hdrawn.nodup_iff (draws_increasing id calls (by omega)).1 (by omega)
  rw [← hiff]
  exact ⟨fun hu => hu.1, fun hn => ⟨hn, fun ep hep => Workload.findEpisode_of_nodup hn hep⟩⟩

/-- Two ids that the engine drew, and between them one that the migration drew. -/
theorem episode_ids_unique_relocated :
    ∃ w, ((ofStore (none : Option (MemoryStateStore .leftToRight))).run
        (relocate (.fromU64 1))).get (.fromU64 1) = some w ∧
      w.episodeIds = [.fromU64 1000, .fromU64 2000, .fromU64 1001] ∧ w.episodeIds.Nodup ∧
      ∀ ep ∈ w.episodes, w.findEpisode ep.id = some ep := by
  obtain ⟨w, hw, hids⟩ : ∃ w, ((ofStore (none : Option (MemoryStateStore .leftToRight))).run
      (relocate (.fromU64 1))).get (.fromU64 1) = some w ∧
      w.episodeIds = [.fromU64 1000, .fromU64 2000, .fromU64 1001] := ⟨_, rfl, by decide⟩
  have hdraws : draws (.fromU64 1) ((ofStore (none : Option (MemoryStateStore .leftToRight))).events
      (relocate (.fromU64 1))) = [1000, 1001] := by decide
  refine ⟨w, hw, hids, (episode_ids_unique_iff none (relocate (.fromU64 1)) (.fromU64 1) w hw
    (by decide)).mpr fun c hc => .inl ?_⟩
  rw [hdraws] at hc
  obtain rfl | rfl : c = 1000 ∨ c = 1001 := by simpa using hc
  · decide
  · decide

/-- Requests to start an episode use up ids even where they are rejected. -/
theorem run_rejected_starts {e : WorkloadEngine σ} {id : WorkloadId} {w : Workload}
    (h : e.get id = some w) (hs : Workload.resumeEligible w.state = false) (owner : OwnerId)
    (ownerGen : OwnerGeneration) (n : ℕ) :
    (e.run (.replicate n (.on id (.startEpisode owner ownerGen)))).episodeCounter =
        e.episodeCounter + .ofNat n ∧
      (e.run (.replicate n (.on id (.startEpisode owner ownerGen)))).get id = some w := by
  induction n generalizing e with
  | zero => exact ⟨(UInt64.add_zero _).symm, h⟩
  | succ n ih =>
    obtain ⟨-, hc, hget⟩ := e.step_on_some h (.startEpisode owner ownerGen)
    have hstep := w.apply_step none (.startEpisode (.fromU64 e.episodeCounter) owner ownerGen true)
    generalize (w.apply (.startEpisode (.fromU64 e.episodeCounter) owner ownerGen true)
      none).outcome = o at hstep
    have hsame : (w.apply (.startEpisode (.fromU64 e.episodeCounter) owner ownerGen true)
        none).workload = w := by
      generalize (w.apply (.startEpisode (.fromU64 e.episodeCounter) owner ownerGen true)
        none).workload = w' at hstep
      cases hstep with
      | rejected => rfl
      | start _ he => exact absurd he (by rw [hs]; decide)
    have hnext : (e.step (.on id (.startEpisode owner ownerGen))).2.get id = some w := by
      rw [hget, if_pos rfl]
      exact congrArg some hsame
    obtain ⟨hcounter, hw⟩ := ih hnext
    refine ⟨?_, hw⟩
    rw [List.replicate_succ]
    refine hcounter.trans ?_
    rw [hc, if_pos (show Request.draws _ = true from rfl), UInt64.add_assoc, UInt64.ofNat_add,
      UInt64.add_comm 1]
    rfl

/-- Two requests in a row, the first of which draws no id. -/
theorem get_run_pair {e : WorkloadEngine σ} {id : WorkloadId} {w : Workload}
    (h : e.get id = some w) {r : Request} (hr : r.draws = false) (r' : Request) :
    (e.run [.on id r, .on id r']).get id = some ((w.apply (r.operation e.episodeCounter w)
      none).workload.apply (r'.operation e.episodeCounter
        (w.apply (r.operation e.episodeCounter w) none).workload) none).workload := by
  obtain ⟨-, hc, hget⟩ := e.step_on_some h r
  obtain ⟨-, -, hget'⟩ := (e.step (.on id r)).2.step_on_some ((hget id).trans (if_pos rfl)) r'
  rw [hr, if_neg (by decide)] at hc
  have hlast := (hget' id).trans (if_pos rfl)
  rwa [hc] at hlast

/-- A workload launched, dispatched and migrated: its episodes are 1000 and 2000. -/
def launchAndMigrate : List EngineCall :=
  launch (.fromU64 1) { migration := { eligibility := .planOnly } } ++
    [.on (.fromU64 1) (.admitDispatch (.fromU64 1000) {} {}),
      .on (.fromU64 1) (.requestMigration (.fromU64 2)),
      .on (.fromU64 1) (.commitMigration (.fromU64 2) {} {})]

/-- Rejected requests take the engine's counter to 2000, and the episode that
replaces a lost one gets the id of the migration target again. -/
theorem migrated_id_drawn_again :
    ¬∀ (calls : List EngineCall) (id : WorkloadId) (w : Workload),
      ((ofStore (none : Option (MemoryStateStore .leftToRight))).run calls).get id = some w →
        w.episodeIds.Nodup := by
  intro h
  set e := (ofStore (none : Option (MemoryStateStore .leftToRight))).run launchAndMigrate
  have hw : e.get (.fromU64 1) = some (e.snapshot (.fromU64 1)) := rfl
  -- 999 requests are rejected because the workload is running
  obtain ⟨hcounter, hget⟩ := run_rejected_starts hw (by decide) {} {} 999
  have hcounter' : e.episodeCounter + .ofNat 999 = 2000 := by decide
  -- the lost target is replaced by an episode with the id just reached
  have hreplaced := get_run_pair hget (r := .onWorkerLost {} {} (.fromU64 3)) rfl
    (.startEpisode {} {})
  rw [hcounter, hcounter'] at hreplaced
  have hrun := h (launchAndMigrate ++ .replicate 999 (.on (.fromU64 1) (.startEpisode {} {})) ++
    [.on (.fromU64 1) (.onWorkerLost {} {} (.fromU64 3)), .on (.fromU64 1) (.startEpisode {} {})])
    (.fromU64 1) _ (by rw [run_append, run_append]; exact hreplaced)
  exact absurd hrun (by decide)

end WorkloadEngine

end WorkloadFabric
