/-
What a step does to the episode at each place of the list.

Episodes are pushed at the back and never taken out, so the place of an episode names it
for good, even where two of them share an id.  A step that is not granted leaves the
workload alone; a granted one rewrites each episode where it stands (`editAt`) and may
push a new one (`newEpisode`).  `Step.episodes_eq` is the closed form, and the facts about
single episodes are read off it.
-/
import WorkloadFabric.Authority

namespace WorkloadFabric

open FirstMatch

namespace Workload

/-! ### Places -/

/-- Where a search by id stops; the length of the list where it finds nothing. -/
def place (w : Workload) (id : ExecutionEpisodeId) : ℕ := w.episodes.findIdx (·.id == id)

/-- Where the current episode stands. -/
def currentPlace (w : Workload) : ℕ :=
  if w.episodes.any (·.authoritative) then w.episodes.findIdx (·.authoritative)
  else w.episodes.length - 1

theorem findEpisode_eq_getElem? (w : Workload) (id : ExecutionEpisodeId) :
    w.findEpisode id = w.episodes[w.place id]? := find?_eq_getElem? _ _

theorem currentEpisode_eq_getElem? (w : Workload) :
    w.currentEpisode = w.episodes[w.currentPlace]? := by
  rw [currentEpisode, currentPlace, find?_eq_getElem?]
  by_cases h : w.episodes.any (·.authoritative) = true
  · rw [if_pos h]
    have hlt : w.episodes.findIdx (·.authoritative) < w.episodes.length := by
      simpa [List.findIdx_lt_length] using h
    rw [List.getElem?_eq_getElem hlt, Option.some_or]
  · rw [if_neg h]
    have hle : w.episodes.length ≤ w.episodes.findIdx (·.authoritative) := by
      simpa [List.findIdx_lt_length, ← not_lt] using h
    rw [List.getElem?_eq_none hle, Option.none_or, List.getLast?_eq_getElem?]

/-- The episode at the place a search stops is the episode found. -/
theorem findEpisode_of_place {w : Workload} {id : ExecutionEpisodeId} {i : ℕ} {e : Episode}
    (h : w.place id = i) (hi : w.episodes[i]? = some e) : w.findEpisode id = some e := by
  rw [findEpisode_eq_getElem?, h, hi]

theorem currentEpisode_of_place {w : Workload} {i : ℕ} {e : Episode} (h : w.currentPlace = i)
    (hi : w.episodes[i]? = some e) : w.currentEpisode = some e := by
  rw [currentEpisode_eq_getElem?, h, hi]

theorem episodes_modifyEpisode (w : Workload) (id : ExecutionEpisodeId) (f : Episode → Episode) :
    (w.modifyEpisode id f).episodes =
      w.episodes.mapIdx fun i e => if w.place id = i then f e else e :=
  modifyFirst_eq_mapIdx _ f _

theorem episodes_modifyCurrent (w : Workload) (f : Episode → Episode) :
    (w.modifyCurrent f).episodes =
      w.episodes.mapIdx fun i e => if w.currentPlace = i then f e else e := by
  rw [modifyCurrent, currentPlace]
  by_cases h : w.episodes.any (·.authoritative) = true
  · simp only [if_pos h]
    exact modifyFirst_eq_mapIdx _ f _
  · simp only [if_neg h]
    exact modifyLast_eq_mapIdx f _

/-- Writing through the pointer shows unless it leaves the episode as it is. -/
theorem modifyEpisode_episodes_iff {w : Workload} {id : ExecutionEpisodeId}
    {f : Episode → Episode} :
    (w.modifyEpisode id f).episodes = w.episodes ↔ ∀ e, w.findEpisode id = some e → f e = e := by
  rw [episodes_modifyEpisode, mapIdx_at_eq_self, findEpisode_eq_getElem?]

theorem modifyCurrent_episodes_iff {w : Workload} {f : Episode → Episode} :
    (w.modifyCurrent f).episodes = w.episodes ↔ ∀ e, w.currentEpisode = some e → f e = e := by
  rw [episodes_modifyCurrent, mapIdx_at_eq_self, currentEpisode_eq_getElem?]

/-! ### The closed form -/

/-- What a granted operation makes of the episode at place `i`. -/
def editAt (w : Workload) (op : WorkloadOp) (i : ℕ) (e : Episode) : Episode :=
  match op with
  | .startEpisode _ _ _ _ => { e with authoritative := false }
  | .commitMigration _ _ _ => { e with authoritative := false }
  | .admitDispatch episode worker boot =>
    if w.place episode = i then bindWorker worker boot e else e
  | .reportProgress episode _ delta durable =>
    if w.place episode = i then creditEpisode delta durable e else e
  | .commitCompletion _ => if w.currentPlace = i then { e with completed := true } else e
  | .onWorkerLost _ _ _ => if w.currentPlace = i then loseWorker e else e
  | .markEpisodeCompleted id => if w.place id = i then completeEpisode e else e
  | .markEpisodeFailed id => if w.place id = i then failEpisode e else e
  | .completeSuspend _ =>
    if w.currentPlace = i ∧ w.state ≠ .suspended then suspendEpisode e else e
  | _ => e

/-- The episode that a granted operation pushes. -/
def newEpisode (w : Workload) : WorkloadOp → Option Episode
  | .startEpisode id owner ownerGen _ => some (w.admittedEpisode id owner ownerGen)
  | .commitMigration _ worker boot => some (w.targetEpisode worker boot)
  | _ => none

theorem mapIdx_const {α β : Type*} (f : α → β) (l : List α) :
    l.mapIdx (fun _ a => f a) = l.map f :=
  List.mapIdx_eq_iff.mpr fun i => by rw [List.getElem?_map]

section Edits

variable {w w' : Workload} {op : WorkloadOp} {o : Outcome}

/-- Nothing is rewritten and nothing pushed. -/
theorem edit_of_untouched (hedit : ∀ i e, w.editAt op i e = e) (hnew : w.newEpisode op = none)
    (h : w'.episodes = w.episodes) :
    w'.episodes = w.episodes.mapIdx (w.editAt op) ++ (w.newEpisode op).toList := by
  have hid : w.editAt op = fun _ e => e := funext fun i => funext fun e => hedit i e
  rw [hnew, hid, h, List.mapIdx_eq_iff.mpr fun i => (Option.map_id' ..).symm]
  exact (List.append_nil _).symm

/-- One episode is rewritten. -/
theorem edit_of_modified {l : List Episode} (hnew : w.newEpisode op = none)
    (hl : l = w.episodes.mapIdx (w.editAt op)) (h : w'.episodes = l) :
    w'.episodes = w.episodes.mapIdx (w.editAt op) ++ (w.newEpisode op).toList := by
  rw [hnew, h, hl]
  exact (List.append_nil _).symm

end Edits

/-- **What a granted step makes of the episodes.** -/
theorem Step.episodes_eq {w w' : Workload} {op : WorkloadOp} {o : Outcome} (h : Step w op o w')
    (hg : w.Granted op) :
    w'.episodes = w.episodes.mapIdx (w.editAt op) ++ (w.newEpisode op).toList := by
  cases h with
  | rejected _ hn => exact absurd hg hn
  | start =>
    simp only [started, beginEpisode, moved_episodes]
    rw [revokeAuthority, ← mapIdx_const]
    simp only [admittedEpisode, moved_progress, moved_intent]
    rfl
  | commitMigration =>
    simp only [migrated, handOver, moved_episodes]
    rw [revokeAuthority, ← mapIdx_const]
    simp only [targetEpisode, moved_progress, moved_intent, moved_owner, moved_ownerGeneration,
      moved_episodeCounterForMigration]
    rfl
  | dispatch =>
    refine edit_of_modified rfl (w.episodes_modifyEpisode _ _) ?_
    split
    · exact moved_episodes ..
    · rfl
  | progress => exact edit_of_modified rfl (w.episodes_modifyEpisode _ _) rfl
  | complete =>
    refine edit_of_modified rfl (w.episodes_modifyCurrent _) ?_
    rw [moved_episodes, moved_episodes]
    rfl
  | completeRefused => exact edit_of_modified rfl (w.episodes_modifyCurrent _) rfl
  | lost =>
    refine edit_of_modified rfl (w.episodes_modifyCurrent _) ?_
    split
    · exact moved_episodes ..
    · rfl
  | markCompleted => exact edit_of_modified rfl (w.episodes_modifyEpisode _ _) rfl
  | markFailed => exact edit_of_modified rfl (w.episodes_modifyEpisode _ _) rfl
  | suspendedAgain _ hs => exact edit_of_untouched (fun i e => if_neg fun h => h.2 hs) rfl rfl
  | suspended _ hs =>
    have hne : w.state ≠ .suspended := by
      rintro heq
      rw [heq] at hs
      exact absurd hs (by decide)
    refine edit_of_modified rfl (l := (w.modifyCurrent suspendEpisode).episodes) ?_ ?_
    · rw [episodes_modifyCurrent]
      refine congrArg (List.mapIdx · w.episodes) (funext fun i => funext fun e => ?_)
      exact (if_congr (and_iff_left hne) rfl rfl).symm
    · rw [moved_episodes, moved_episodes]
  | _ =>
    refine edit_of_untouched (fun _ _ => rfl) rfl ?_
    first
      | rfl
      | exact moved_episodes ..
      | simp only [moved_episodes]; rfl

/-- **The episode at a place after a step.** -/
theorem Step.episode_at {w w' : Workload} {op : WorkloadOp} {o : Outcome} (h : Step w op o w')
    {i : ℕ} {e : Episode} (hi : w.episodes[i]? = some e) :
    (w.Granted op ∧ w'.episodes[i]? = some (w.editAt op i e)) ∨
      (¬w.Granted op ∧ w' = w ∧ o ≠ .allow) := by
  refine h.granted_or.imp_left fun hg => ⟨hg, ?_⟩
  have hlt := (List.getElem?_eq_some_iff.mp hi).1
  rw [h.episodes_eq hg, List.getElem?_append_left (by rwa [List.length_mapIdx]),
    List.getElem?_mapIdx, hi, Option.map_some]

/-- An episode is found at a new place only if it was pushed. -/
theorem Step.episode_new {w w' : Workload} {op : WorkloadOp} {o : Outcome} (h : Step w op o w')
    (hg : w.Granted op) {i : ℕ} (hle : w.episodes.length ≤ i) {e : Episode} :
    w'.episodes[i]? = some e ↔ i = w.episodes.length ∧ w.newEpisode op = some e := by
  rw [h.episodes_eq hg, List.getElem?_append_right (by rwa [List.length_mapIdx]),
    List.length_mapIdx]
  rcases w.newEpisode op with _ | e'
  · simp
  · rw [Option.toList_some, List.getElem?_singleton]
    have hi : i - w.episodes.length = 0 ↔ i = w.episodes.length := by omega
    simp [hi]

/-- Episodes are not taken out. -/
theorem Step.length_le {w w' : Workload} {op : WorkloadOp} {o : Outcome} (h : Step w op o w') :
    w.episodes.length ≤ w'.episodes.length := by
  rcases h.granted_or with hg | ⟨-, rfl, -⟩
  · rw [h.episodes_eq hg, List.length_append, List.length_mapIdx]
    exact Nat.le_add_right _ _
  · exact Nat.le_refl _

/-- They come one at a time. -/
theorem Step.length_le_succ {w w' : Workload} {op : WorkloadOp} {o : Outcome}
    (h : Step w op o w') : w'.episodes.length ≤ w.episodes.length + 1 := by
  rcases h.granted_or with hg | ⟨-, rfl, -⟩
  · rw [h.episodes_eq hg, List.length_append, List.length_mapIdx]
    exact Nat.add_le_add_left (Option.length_toList_le) _
  · exact Nat.le_succ _

end Workload

end WorkloadFabric
