/-
The dispatch fence, and how it opens.

`admitDispatch` looks at the state of the named episode only.  As long as no
workload leaves STARTING with an episode that can still be dispatched
(`Abandons`), the only such episode is the authoritative one of a starting
workload (`Fence`), and the missing checks would hold anyway.

* **`dispatch_fence_iff`** — every accepted dispatch of a run is fenced, and every
  running workload has a dispatched episode, exactly when no step abandons one;
* **`superseded_dispatch_accepted`** — after a restart planned from STARTING the
  superseded episode is dispatched in place of the authoritative one.
-/
import WorkloadFabric.Authority

namespace WorkloadFabric

open FirstMatch

/-- What a dispatch looks at. -/
def Episode.Dispatchable (e : Episode) : Prop := e.state = .admitted ∨ e.state = .preempted

instance (e : Episode) : Decidable e.Dispatchable := inferInstanceAs (Decidable (_ ∨ _))

theorem Episode.not_dispatchable {e : Episode} (s : EpisodeState) (hs : e.state = s)
    (h : s ≠ .admitted ∧ s ≠ .preempted) : ¬e.Dispatchable := by
  rw [Dispatchable, hs]
  exact not_or.mpr h

/-- What of an episode only a new incarnation or a dispatch changes. -/
def Episode.seat (e : Episode) : ExecutionEpisodeId × Bool × WorkerId × WorkerBootId :=
  (e.id, e.authoritative, e.worker, e.boot)

namespace Workload

/-! ### Steps that dispatch nothing -/

/-- No episode changes its worker, and none becomes dispatchable. -/
structure Keeps (w w' : Workload) : Prop where
  seats : w'.episodes.map Episode.seat = w.episodes.map Episode.seat
  found : ∀ episode ep', w'.findEpisode episode = some ep' → ep'.Dispatchable →
    ∃ ep, w.findEpisode episode = some ep ∧ ep.Dispatchable ∧ ep.authoritative = ep'.authoritative

namespace Keeps

variable {w w' w'' : Workload}

theorem of_episodes (h : w'.episodes = w.episodes) : Keeps w w' where
  seats := by rw [h]
  found episode ep' hf hd := by
    rw [findEpisode, h] at hf
    exact ⟨ep', hf, hd, rfl⟩

theorem trans (h : Keeps w w') (h' : Keeps w' w'') : Keeps w w'' where
  seats := h'.seats.trans h.seats
  found episode ep'' hf hd := by
    obtain ⟨ep', hf', hd', ha'⟩ := h'.found episode ep'' hf hd
    obtain ⟨ep, hf, hd, ha⟩ := h.found episode ep' hf' hd'
    exact ⟨ep, hf, hd, ha.trans ha'⟩

theorem moved (h : Keeps w w') (s : WorkloadState) (reason : Text) : Keeps w (w'.moved s reason) :=
  h.trans (of_episodes (moved_episodes ..))

section Rewrite

variable {f : Episode → Episode} (hseat : ∀ e, (f e).seat = e.seat)
  (hd : ∀ e, (f e).Dispatchable → e.Dispatchable)

include hseat

theorem id_eq (e : Episode) : (f e).id = e.id := congrArg (·.1) (hseat e)

include hd

/-- A rewritten episode was dispatchable before if it still is. -/
theorem of_rewritten {ep ep' : Episode} (h : ep' = ep ∨ ep' = f ep) (hd' : ep'.Dispatchable) :
    ep.Dispatchable ∧ ep.authoritative = ep'.authoritative := by
  rcases h with rfl | rfl
  · exact ⟨hd', rfl⟩
  · exact ⟨hd ep hd', (congrArg (·.2.1) (hseat ep)).symm⟩

theorem modifyEpisode (w : Workload) (id : ExecutionEpisodeId) :
    Keeps w (w.modifyEpisode id f) where
  seats := map_modifyFirst hseat _
  found episode ep' hf hd' := by
    obtain ⟨ep, hfound, heq⟩ := find?_modifyFirst (fun e => by rw [id_eq hseat]) hf
    exact ⟨ep, hfound, of_rewritten hseat hd heq hd'⟩

theorem modifyCurrent (w : Workload) : Keeps w (w.modifyCurrent f) := by
  have hfind (episode : ExecutionEpisodeId) (e : Episode) :
      ((f e).id == episode) = (e.id == episode) := by rw [id_eq hseat]
  rw [Workload.modifyCurrent]
  split
  · refine ⟨map_modifyFirst hseat _, fun episode ep' hf hd' => ?_⟩
    obtain ⟨ep, hfound, heq⟩ := find?_modifyFirst (hfind episode) hf
    exact ⟨ep, hfound, of_rewritten hseat hd heq hd'⟩
  · refine ⟨map_modifyLast hseat _, fun episode ep' hf hd' => ?_⟩
    obtain ⟨ep, hfound, heq⟩ := find?_modifyLast (hfind episode) hf
    exact ⟨ep, hfound, of_rewritten hseat hd heq hd'⟩

end Rewrite

theorem claimCompletion (w : Workload) : Keeps w w.claimCompletion :=
  (modifyCurrent (f := fun e => { e with completed := true }) (fun _ => rfl)
    (fun _ hd => hd) w).trans (.of_episodes rfl)

end Keeps

/-! ### One step -/

/-- The operation takes a starting workload out of STARTING, and does not dispatch. -/
def Leaves (w : Workload) : WorkloadOp → Prop
  | .settle g => g = w.generation ∧ w.settleTarget = some .ready
  | .planRestart g reason => g = w.generation ∧ w.restartGranted reason
  | .requestCancellationWorkloadScope g => g = w.generation
  | .completeCancellation g => g = w.generation
  | _ => False

/-- The operation takes a workload out of STARTING whose episode can still be
dispatched. -/
def Abandons (w : Workload) (op : WorkloadOp) : Prop :=
  w.state = .starting ∧ w.Leaves op ∧
    ∃ episode ep, w.findEpisode episode = some ep ∧ ep.Dispatchable

/-- The operation seats an episode on a worker, or unseats all. -/
def Seats : WorkloadOp → Prop
  | .startEpisode _ _ _ _ => True
  | .commitMigration _ _ _ => True
  | .admitDispatch _ _ _ => True
  | _ => False

/-- A step that keeps all episodes in their seats does not enter RUNNING, and
leaves STARTING only as `Leaves` says. -/
structure Stays (w : Workload) (op : WorkloadOp) (w' : Workload) : Prop extends Keeps w w' where
  starting : w.state = .starting → w'.state = .starting ∨ w.Leaves op
  running : w'.state = .running → w.state = .running

namespace Stays

variable {w w' : Workload} {op : WorkloadOp}

theorem same (h : Keeps w w') (hs : w'.state = w.state) : Stays w op w' :=
  ⟨h, fun hw => .inl (hs.trans hw), fun hw => hs.symm.trans hw⟩

/-- A move out of STARTING, or from another state. -/
theorem moved {s : WorkloadState} {reason : Text} (h : Keeps w w')
    (hs : w.state = .starting → w.Leaves op) (hr : s ≠ .running) :
    Stays w op (w'.moved s reason) :=
  ⟨h.moved s reason, fun hw => .inr (hs hw), fun hw => absurd ((moved_state ..).symm.trans hw) hr⟩

end Stays

/-- STARTING has no edge to such a state. -/
theorem not_starting_of_admits {w : Workload} {s : WorkloadState} (h : w.Admits s)
    (hs : canTransition .starting s = false) (hne : s ≠ .starting) : w.state ≠ .starting := by
  intro hw
  rcases h with h | h
  · exact hne (h.symm.trans hw)
  · rw [hw, hs] at h
    exact Bool.false_ne_true h.2.1

/-- A move that STARTING has no edge for. -/
theorem Stays.admitted {w w' : Workload} {op : WorkloadOp} {s t : WorkloadState} {reason : Text}
    (h : Keeps w w') (ha : w.Admits s) (hs : canTransition .starting s = false)
    (hne : s ≠ .starting) (hr : t ≠ .running) : Stays w op (w'.moved t reason) :=
  .moved h (fun hw => absurd hw (not_starting_of_admits ha hs hne)) hr

theorem settleTarget_ne_running {w : Workload} {s : WorkloadState}
    (h : w.settleTarget = some s) : s ≠ .running := by
  rintro rfl
  rw [settleTarget] at h
  split at h
  · split at h <;> simp at h
  · split at h
    · split at h <;> simp at h
    · simp at h

/-- From STARTING the gates lead to READY, or nowhere. -/
theorem settleTarget_of_starting {w : Workload} {s : WorkloadState} (h : w.settleTarget = some s)
    (ha : w.Admits s) (hw : w.state = .starting) : s = .ready := by
  have hedge : ∀ s, canTransition .starting s = false → s ≠ .starting → ¬w.Admits s :=
    fun s hs hne ha => not_starting_of_admits ha hs hne hw
  -- the waiting states cannot be reached from STARTING
  rw [settleTarget] at h
  split at h
  · split at h
    · exact absurd h (by simp)
    · rw [← Option.some.inj h] at ha
      exact absurd ha (hedge _ rfl nofun)
  · split at h
    · split at h
      · exact absurd h (by simp)
      · rw [← Option.some.inj h] at ha
        exact absurd ha (hedge _ rfl nofun)
    · exact (Option.some.inj h).symm

/-- **What a step does to the seats.** -/
theorem Step.stays {w w' : Workload} {op : WorkloadOp} {o : Outcome} (h : Step w op o w')
    (hv : ∀ s g reason, op = .transition s g reason → s = .validating)
    (hn : ¬(Seats op ∧ o = .allow)) : Stays w op w' := by
  have hself : Keeps w w := .of_episodes rfl
  cases h with
  | start => exact absurd ⟨trivial, rfl⟩ hn
  | commitMigration => exact absurd ⟨trivial, rfl⟩ hn
  | dispatch => exact absurd ⟨trivial, rfl⟩ hn
  | @transition s g reason hg ha =>
    obtain rfl := hv s g reason rfl
    exact .admitted hself ha rfl nofun nofun
  | settle hg ht ha =>
    refine .moved hself (fun hw => ⟨hg, ?_⟩) (settleTarget_ne_running ht)
    rw [ht, settleTarget_of_starting ht ha hw]
  | @progress _ _ delta durable _ p =>
    have hprogress : Keeps w { w with progress := p } := .of_episodes rfl
    exact .same (hprogress.trans (.modifyEpisode (f := creditEpisode delta durable)
      (fun _ => rfl) (fun _ hd => hd) _ _)) rfl
  | complete _ _ ha =>
    exact .admitted ((Keeps.claimCompletion w).moved _ _) ha rfl nofun nofun
  | completeRefused => exact .same ((Keeps.claimCompletion w).trans (.of_episodes rfl)) rfl
  | finalize _ _ _ ha =>
    have hcount : Keeps w w.countCompletion := .of_episodes rfl
    exact .admitted (hcount.moved _ _) ha rfl nofun nofun
  | cancel hg =>
    have hflag : Keeps w w.flagCancellation := .of_episodes rfl
    exact .moved hflag (fun _ => hg) nofun
  | cancelled hg =>
    have hflag : Keeps w w.flagCancelledFinal := .of_episodes rfl
    exact .moved ((hflag.moved _ _).moved _ _) (fun _ => hg) nofun
  | lost =>
    have hlose : Keeps w (w.modifyCurrent loseWorker) :=
      .modifyCurrent (f := loseWorker) (fun _ => rfl)
        (fun _ hd => absurd hd (Episode.not_dispatchable .lost rfl ⟨nofun, nofun⟩)) w
    split
    case isTrue hs =>
      refine .moved hlose (fun hw => ?_) nofun
      simp [hw] at hs
    case isFalse => exact .same hlose rfl
  | markCompleted =>
    exact .same (.modifyEpisode (f := completeEpisode) (fun _ => rfl)
      (fun _ hd => absurd hd (Episode.not_dispatchable .completed rfl ⟨nofun, nofun⟩)) _ _) rfl
  | markFailed =>
    exact .same (.modifyEpisode (f := failEpisode) (fun _ => rfl)
      (fun _ hd => absurd hd (Episode.not_dispatchable .failed rfl ⟨nofun, nofun⟩)) _ _) rfl
  | @restart _ reason hg hr =>
    have htake : Keeps w (w.takeRestartSlot reason) := .of_episodes rfl
    exact .moved htake (fun _ => ⟨hg, hr⟩) nofun
  | suspend _ _ _ ha =>
    exact .admitted hself ha rfl nofun nofun
  | suspended _ hs =>
    have hsuspend : Keeps w (w.modifyCurrent suspendEpisode) :=
      .modifyCurrent (f := suspendEpisode) (fun _ => rfl)
        (fun _ hd => absurd hd (Episode.not_dispatchable .suspended rfl ⟨nofun, nofun⟩)) w
    refine .moved (hsuspend.moved _ _) (fun hw => ?_) nofun
    simp [hw] at hs
  | resume _ hs =>
    refine .moved hself (fun hw => ?_) nofun
    simp [hw] at hs
  | migrate _ _ ha =>
    have hcount : Keeps w w.countMigration := .of_episodes rfl
    exact .admitted hcount ha rfl nofun nofun
  | _ => exact .same (.of_episodes rfl) rfl

/-! ### The fence -/

/-- What a dispatch would accept is the authoritative episode of a starting
workload. -/
def Fence (w : Workload) : Prop :=
  ∀ episode ep, w.findEpisode episode = some ep → ep.Dispatchable →
    ep.authoritative = true ∧ w.state = .starting

theorem fence_create (id : WorkloadId) (name intent : Text) (policy : Policy) :
    Fence { create id name intent with policy := policy } :=
  fun _ _ hf => absurd hf (by simp [findEpisode, create])

/-- Where nothing is abandoned, the fence holds on. -/
theorem Fence.stays {w w' : Workload} {op : WorkloadOp} (h : Fence w) (hs : Stays w op w')
    (hn : ¬w.Abandons op) : Fence w' := by
  intro episode ep' hf' hd'
  obtain ⟨ep, hf, hd, ha⟩ := hs.found episode ep' hf' hd'
  obtain ⟨hauth, hstarting⟩ := h episode ep hf hd
  refine ⟨ha.symm.trans hauth, (hs.starting hstarting).resolve_right fun hl => ?_⟩
  exact hn ⟨hstarting, hl, episode, ep, hf, hd⟩

/-- A search in a new incarnation finds the new episode, or an old one as it was. -/
theorem Succeeds.found {w w' : Workload} {ep ep' : Episode} (h : Succeeds w w' ep)
    {episode : ExecutionEpisodeId} (hf : w'.findEpisode episode = some ep') :
    ep' = ep ∨ ∃ e, w.findEpisode episode = some e ∧ e.state = ep'.state := by
  rw [findEpisode, h.episodes, List.find?_append, revokeAuthority, List.find?_map] at hf
  cases hfind : w.episodes.find? ((fun e => e.id == episode) ∘
      fun e => { e with authoritative := false }) with
  | none =>
    rw [hfind, Option.map_none, Option.none_or] at hf
    exact .inl (List.mem_singleton.mp (List.mem_of_find?_eq_some hf))
  | some e =>
    rw [hfind, Option.map_some, Option.some_or, Option.some.injEq] at hf
    exact .inr ⟨e, hfind, by rw [← hf]⟩

theorem Fence.succeed {w w' : Workload} {ep : Episode} (h : Fence w) (hs : Succeeds w w' ep)
    (hw : w.state ≠ .starting) (hep : ep.Dispatchable → w'.state = .starting) : Fence w' := by
  intro episode ep' hf hd
  rcases hs.found hf with rfl | ⟨e, hfe, hstate⟩
  · exact ⟨hs.authoritative, hep hd⟩
  · rw [Episode.Dispatchable, ← hstate] at hd
    exact absurd (h episode e hfe hd).2 hw

/-- What an accepted dispatch has to do. -/
structure Dispatches (episode : ExecutionEpisodeId) (w w' : Workload) : Prop where
  /-- the named episode is the one authoritative episode -/
  authoritative : ∃ ep, w.findEpisode episode = some ep ∧ ep.authoritative = true ∧
    ∀ e ∈ w.episodes, e.authoritative = true → e = ep
  starting : w.state = .starting
  running : w'.state = .running
  /-- and is running afterwards -/
  dispatched : ∃ ep, w'.findEpisode episode = some ep ∧ ep.state = .running

/-- **A fenced dispatch** goes to the last episode, and leaves nothing that could
be dispatched. -/
theorem Fence.dispatch {w : Workload} (h : Fence w) (ha : Authority w)
    {episode : ExecutionEpisodeId} {ep : Episode} (hf : w.findEpisode episode = some ep)
    (hd : ep.Dispatchable) (worker : WorkerId) (boot : WorkerBootId) {w' : Workload}
    (hw' : w' = if w.state = .starting then
        (w.modifyEpisode episode (bindWorker worker boot)).moved .running (text "dispatch")
      else w.modifyEpisode episode (bindWorker worker boot)) :
    Dispatches episode w w' ∧ Fence w' ∧ bindWorker worker boot ep ∈ w'.episodes := by
  obtain ⟨hauth, hstarting⟩ := h episode ep hf hd
  -- the authoritative episode stands last, and no other has its id
  obtain ⟨init, hw, hinit, hids⟩ := ha.soleLast.find?_marked hf hauth
  have hid : (ep.id == episode) = true :=
    List.find?_some (p := fun e : Episode => e.id == episode) hf
  have hepisodes : w'.episodes = init ++ [bindWorker worker boot ep] := by
    rw [hw', if_pos hstarting, moved_episodes, modifyEpisode]
    simp only
    rw [hw, modifyFirst_append_singleton (p := fun e : Episode => e.id == episode) hid hids]
  have hrunning : w'.state = .running := by rw [hw', if_pos hstarting, moved_state]
  refine ⟨⟨⟨ep, hf, hauth, fun e he hae => ?_⟩, hstarting, hrunning, ?_⟩, ?_, ?_⟩
  · rw [hw] at he
    exact SoleLast.eq_of_mem hinit he hae
  · refine ⟨bindWorker worker boot ep, ?_, rfl⟩
    rw [findEpisode, hepisodes]
    exact find?_append_singleton (p := fun e : Episode => e.id == episode)
      (a := bindWorker worker boot ep) hid hids
  · intro episode' ep' hf' hd'
    exfalso
    rw [findEpisode, hepisodes, List.find?_append] at hf'
    cases hi : init.find? (fun e => e.id == episode') with
    | none =>
      rw [hi, Option.none_or] at hf'
      rw [List.mem_singleton.mp (List.mem_of_find?_eq_some hf')] at hd'
      exact Episode.not_dispatchable .running rfl (by simp) hd'
    | some e =>
      rw [hi, Option.some_or, Option.some.injEq] at hf'
      -- an earlier episode would have been dispatchable before, against the fence
      have hold : w.findEpisode episode' = some e := by
        rw [findEpisode, hw, List.find?_append, hi, Option.some_or]
      have hmarked := (h episode' e hold (hf' ▸ hd')).1
      rw [hinit e (List.mem_of_find?_eq_some hi)] at hmarked
      exact Bool.false_ne_true hmarked
  · rw [hepisodes]
    exact List.mem_append_right _ (List.mem_singleton_self _)

/-- An operation that passes its guard is accepted. -/
theorem admitDispatch_allow {w : Workload} {episode : ExecutionEpisodeId} {ep : Episode}
    (hf : w.findEpisode episode = some ep) (hd : ep.Dispatchable) (worker : WorkerId)
    (boot : WorkerBootId) (ex : Option Explanation) :
    (w.apply (.admitDispatch episode worker boot) ex).outcome = .allow := by
  have hs := w.apply_step ex (.admitDispatch episode worker boot)
  generalize (w.apply (.admitDispatch episode worker boot) ex).workload = w' at hs
  generalize (w.apply (.admitDispatch episode worker boot) ex).outcome = o at hs ⊢
  cases hs with
  | rejected _ hn => exact absurd ⟨ep, hf, hd⟩ hn
  | dispatch => rfl

/-- An abandoned episode stays in the list while its workload leaves STARTING. -/
theorem Step.abandoned {w w' : Workload} {op : WorkloadOp} {o : Outcome} (h : Step w op o w')
    (hs : w.state = .starting) (hl : w.Leaves op) :
    w'.state ≠ .starting ∧ w'.episodes = w.episodes := by
  have hedge {s : WorkloadState} (he : canTransition .starting s = true) (hc : s ≠ .completed) :
      w.Admits s := admits_of_edge hs he rfl (.inl hc)
  have ht : isTerminal w.state = false := by rw [hs]; rfl
  have hcancelling : isCancelling w.state = false := by rw [hs]; rfl
  cases h with
  | rejected _ hn =>
    -- none of the four can be turned away before it writes
    refine absurd ?_ hn
    cases op with
    | settle g => exact ⟨hl.1, by rw [hl.2]; rfl⟩
    | planRestart g reason => exact hl
    | requestCancellationWorkloadScope g => exact ⟨hl, ht⟩
    | completeCancellation g => exact ⟨hl, .inr ht⟩
    | _ => exact hl.elim
  | @settle s _ _ htarget =>
    obtain rfl : s = .ready := Option.some.inj (htarget.symm.trans hl.2)
    exact ⟨by simp, moved_episodes ..⟩
  | @settleRefused s _ _ _ htarget hn =>
    obtain rfl : s = .ready := Option.some.inj (htarget.symm.trans hl.2)
    exact (hn (hedge rfl nofun)).elim
  | restart => exact ⟨by simp, moved_episodes ..⟩
  | restartRefused _ _ hn => exact (hn (hedge rfl nofun)).elim
  | cancel => exact ⟨by simp, moved_episodes ..⟩
  | cancelAgain _ hc => exact (Bool.eq_false_iff.mp hcancelling hc).elim
  | cancelRefused _ _ _ hn => exact (hn (hedge rfl nofun)).elim
  | cancelled =>
    exact ⟨by simp, by rw [moved_episodes, moved_episodes, moved_episodes]; rfl⟩
  | cancelledAgain _ hc => exact nomatch hs.symm.trans hc
  | cancelledRefused _ _ hn => exact (hn (hedge rfl nofun)).elim
  | _ => exact hl.elim

end Workload

namespace WorkloadEngine

variable {σ : Type}

/-! ### Runs -/

/-- The worker that the last accepted dispatch or migration bound, if any was
accepted since the last start. -/
def binding (id : WorkloadId) (evs : List (Event σ)) : Option (WorkerId × WorkerBootId) :=
  evs.foldl (fun b ev =>
    match ev.accepted id with
    | some (.startEpisode _ _) => none
    | some (.commitMigration _ worker boot) => some (worker, boot)
    | some (.admitDispatch _ worker boot) => some (worker, boot)
    | _ => b) none

theorem binding_append (id : WorkloadId) (evs : List (Event σ)) (ev : Event σ) :
    binding id (evs ++ [ev]) = match ev.accepted id with
      | some (.startEpisode _ _) => none
      | some (.commitMigration _ worker boot) => some (worker, boot)
      | some (.admitDispatch _ worker boot) => some (worker, boot)
      | _ => binding id evs := by
  rw [binding, List.foldl_append]
  rfl

/-- A running workload has its authoritative episode on the worker that was bound. -/
def Seated (id : WorkloadId) (evs : List (Event σ)) (w : Workload) : Prop :=
  w.state = .running → ∃ ep ∈ w.episodes, ep.authoritative = true ∧
    binding id evs = some (ep.worker, ep.boot)

/-- Episodes that keep their seats keep a running workload seated. -/
theorem Seated.stays {id : WorkloadId} {evs evs' : List (Event σ)} {w w' : Workload}
    {op : WorkloadOp} (h : Seated id evs w) (hs : w.Stays op w')
    (hb : binding id evs' = binding id evs) : Seated id evs' w' := by
  intro hw'
  obtain ⟨ep, hep, hauth, hbound⟩ := h (hs.running hw')
  have hmem : ep.seat ∈ w'.episodes.map Episode.seat := hs.seats ▸ List.mem_map_of_mem hep
  obtain ⟨ep', hep', hseat⟩ := List.mem_map.mp hmem
  rw [Episode.seat, Episode.seat, Prod.mk.injEq, Prod.mk.injEq, Prod.mk.injEq] at hseat
  refine ⟨ep', hep', hseat.2.1.trans hauth, ?_⟩
  rw [hb, hseat.2.2.1, hseat.2.2.2]
  exact hbound

/-- A new incarnation, or a fenced dispatch, keeps the fence and seats what runs. -/
theorem seats_of_step {id : WorkloadId} {evs : List (Event σ)} {ev : Event σ} {w w' : Workload}
    {r : Request} {counter : UInt64} (hacc : ev.accepted id = some r) (hfence : w.Fence)
    (hauth : w.Authority) (hs : w.Step (r.operation counter w) .allow w')
    (hop : Workload.Seats (r.operation counter w)) :
    w'.Fence ∧ Seated id (evs ++ [ev]) w' := by
  cases r with
  | startEpisode owner ownerGen =>
    cases hs with
    | rejected ho => exact absurd rfl ho
    | start _ he =>
      obtain ⟨ep, hsucc, -⟩ := w.started_succeeds (.fromU64 counter) owner ownerGen true
      -- an episode starts from outside STARTING, where the fence leaves nothing to dispatch
      have hne : w.state ≠ .starting := fun hw => absurd he (by rw [hw]; decide)
      refine ⟨hfence.succeed hsucc hne fun _ => Workload.started_state .., fun hw => ?_⟩
      rw [Workload.started_state] at hw
      exact absurd hw (by decide)
  | commitMigration g worker boot =>
    cases hs with
    | rejected ho => exact absurd rfl ho
    | commitMigration _ hm =>
      obtain ⟨ep, hsucc, -, -, hstate, hworker, hboot⟩ := w.migrated_succeeds worker boot
      have hne : w.state ≠ .starting := fun hw => absurd hm (by rw [hw]; decide)
      refine ⟨hfence.succeed hsucc hne fun hd =>
        absurd hd (Episode.not_dispatchable .running hstate ⟨nofun, nofun⟩), fun _ => ?_⟩
      refine ⟨ep, ?_, hsucc.authoritative, ?_⟩
      · rw [hsucc.episodes]
        exact List.mem_append_right _ (List.mem_singleton_self _)
      · rw [binding_append, hacc, hworker, hboot]
  | admitDispatch episode worker boot =>
    generalize hout : Outcome.allow = o at hs
    cases hs with
    | rejected ho => exact absurd hout.symm ho
    | dispatch hf hd =>
      obtain ⟨-, hfence', hmem⟩ := hfence.dispatch hauth hf hd worker boot rfl
      obtain ⟨hmarked, -⟩ := hfence _ _ hf hd
      refine ⟨hfence', fun _ => ⟨_, hmem, hmarked, ?_⟩⟩
      rw [binding_append, hacc]
      rfl
  | _ => exact hop.elim

variable [StateStore σ]

/-- Every dispatch that the engine would accept here does what it has to do. -/
def DispatchFenced (e : WorkloadEngine σ) (id : WorkloadId) (w : Workload) : Prop :=
  ∀ episode worker boot,
    (e.step (.on id (.admitDispatch episode worker boot))).1.outcome = .allow →
    ∃ w', (e.step (.on id (.admitDispatch episode worker boot))).2.get id = some w' ∧
      Workload.Dispatches episode w w'

/-- No request of the run abandons an episode of `id`. -/
def NoneAbandoned (store : Option σ) (calls : List EngineCall) (id : WorkloadId) : Prop :=
  ∀ pre r post w, calls = pre ++ .on id r :: post → ((ofStore store).run pre).get id = some w →
    ¬w.Abandons (r.operation ((ofStore store).run pre).episodeCounter w)

theorem NoneAbandoned.of_append {store : Option σ} {calls post : List EngineCall} {id : WorkloadId}
    (h : NoneAbandoned store (calls ++ post) id) : NoneAbandoned store calls id := by
  intro pre r post' w heq
  exact h pre r (post' ++ post) w (by rw [heq, List.append_assoc, List.cons_append])

theorem operation_transition {r : Request} {counter : UInt64} {w : Workload} {s : WorkloadState}
    {g : WorkloadGeneration} {reason : Text} (h : r.operation counter w = .transition s g reason) :
    s = .validating := by
  cases r <;> simp only [Request.operation, reduceCtorEq, WorkloadOp.transition.injEq] at h
  exact h.1.symm

/-- A request that seats no episode binds no worker. -/
theorem binding_of_not_seats {e : WorkloadEngine σ} {id : WorkloadId} {r : Request}
    {counter : UInt64} {w : Workload}
    (h : ¬(Workload.Seats (r.operation counter w) ∧ (e.step (.on id r)).1.outcome = .allow))
    (evs : List (Event σ)) :
    binding id (evs ++ [e.observe (.on id r)]) = binding id evs := by
  rw [binding_append]
  cases hacc : (e.observe (.on id r)).accepted id with
  | none => rfl
  | some r' =>
    obtain ⟨rfl, ho⟩ := accepted_observe.mp hacc
    cases r <;> first | rfl | exact absurd ⟨trivial, ho⟩ h

/-- **Where nothing is abandoned, the fence holds**, and running workloads are
seated. -/
theorem fence_of_run {store : Option σ} {calls : List EngineCall} {id : WorkloadId}
    {w : Workload} (h : ((ofStore store).run calls).get id = some w)
    (hn : NoneAbandoned store calls id) :
    w.Fence ∧ Seated id ((ofStore store).events calls) w := by
  revert hn
  refine workload_induction (P := fun calls w => NoneAbandoned store calls id →
    w.Fence ∧ Seated id ((ofStore store).events calls) w) ?_ ?_ ?_ calls h
  · exact fun calls name intent policy _ _ =>
      ⟨Workload.fence_create id name intent policy,
        fun hw => absurd (show WorkloadState.created = .running from hw) (by decide)⟩
  · intro calls c w _ hc hw hn
    obtain ⟨hfence, hseated⟩ := hw hn.of_append
    refine ⟨hfence, ?_⟩
    -- a call on another workload is no event of this one
    have hacc : Event.accepted id (((ofStore store).run calls).observe c) = none := by
      cases c with
      | create => rfl
      | on id' r => exact if_neg fun hid => hc hid.1
    rw [Seated, events_append_singleton, binding_append, hacc]
    exact hseated
  · intro calls r w hw hP hn
    obtain ⟨hfence, hseated⟩ := hP hn.of_append
    have habandons := hn calls r [] w rfl hw
    have hauth := authority_of_run hw
    rw [events_append_singleton]
    set e := (ofStore store).run calls
    have hs := w.apply_step none (r.operation e.episodeCounter w)
    have hout := (e.step_on_some hw r).1
    rw [← hout] at hs
    by_cases hseats : Workload.Seats (r.operation e.episodeCounter w) ∧
        (e.step (.on id r)).1.outcome = .allow
    · obtain ⟨hop, ho⟩ := hseats
      rw [ho] at hs
      exact seats_of_step (accepted_observe.mpr ⟨rfl, ho⟩) hfence hauth hs hop
    · have hstays := hs.stays (fun s g reason => operation_transition) hseats
      exact ⟨hfence.stays hstays habandons,
        hseated.stays hstays (binding_of_not_seats hseats _)⟩

/-- A fence makes the engine's dispatches do what they have to do. -/
theorem dispatchFenced_of_fence {e : WorkloadEngine σ} {id : WorkloadId} {w : Workload}
    (h : e.get id = some w) (hfence : w.Fence) (hauth : w.Authority) : DispatchFenced e id w := by
  intro episode worker boot ho
  obtain ⟨hout, -, hget⟩ := e.step_on_some h (.admitDispatch episode worker boot)
  have hs := w.apply_step none (.admitDispatch episode worker boot)
  refine ⟨_, (hget id).trans (if_pos rfl), ?_⟩
  rw [show (w.apply (.admitDispatch episode worker boot) none).outcome = .allow from
    hout.symm.trans ho] at hs
  generalize hw' : (w.apply (.admitDispatch episode worker boot) none).workload = w' at hs
  generalize hallow : Outcome.allow = o at hs
  cases hs with
  | rejected ho => exact absurd hallow.symm ho
  | dispatch hf hd => exact hw' ▸ (hfence.dispatch hauth hf hd worker boot rfl).1

/-- **The dispatch fence**: throughout a run every dispatch that would be accepted
goes to the authoritative episode of a starting workload, and every running
workload has a dispatched episode, exactly when no request abandons an episode. -/
theorem dispatch_fence_iff (store : Option σ) (calls : List EngineCall) (id : WorkloadId) :
    (∀ pre post w, calls = pre ++ post → ((ofStore store).run pre).get id = some w →
      DispatchFenced ((ofStore store).run pre) id w ∧
        Seated id ((ofStore store).events pre) w) ↔
      NoneAbandoned store calls id := by
  constructor
  · intro h pre r post w heq hw ⟨hstarting, hleaves, episode, ep, hf, hd⟩
    set e := (ofStore store).run pre with he
    obtain ⟨hout, -, hget⟩ := e.step_on_some hw r
    have hw' := (hget id).trans (if_pos rfl)
    obtain ⟨hne, hepisodes⟩ := (w.apply_step none _).abandoned hstarting hleaves
    set w' := (w.apply (r.operation e.episodeCounter w) none).workload
    rw [← run_append_singleton] at hw'
    have hfenced := (h (pre ++ [.on id r]) post w' (by rw [heq, List.append_assoc]; rfl) hw').1
    -- the abandoned episode is still found, and still accepted
    have hf' : w'.findEpisode episode = some ep := by rw [Workload.findEpisode, hepisodes]; exact hf
    have hout' := (step_on_some _ hw' (.admitDispatch episode {} {})).1
    obtain ⟨_, -, hdispatches⟩ := hfenced episode {} {}
      (hout'.trans (Workload.admitDispatch_allow hf' hd {} {} none))
    exact hne hdispatches.starting
  · intro h pre post w heq hw
    subst heq
    obtain ⟨hfence, hseated⟩ := fence_of_run hw h.of_append
    exact ⟨dispatchFenced_of_fence hw hfence (authority_of_run hw), hseated⟩

/-- A workload restarted from STARTING: episode 1000 was never dispatched, and 1001
has superseded it. -/
def launchAndRestart : List EngineCall :=
  launch (.fromU64 1) { restart := { kind := .alwaysWithLimit, maxRestarts := 1 } } ++
    [.on (.fromU64 1) (.planRestart (text "x") (.fromU64 2)),
      .on (.fromU64 1) (.startEpisode (.fromU64 1) (.fromU64 1))]

/-- The superseded episode is dispatched, and the authoritative one never was. -/
theorem superseded_dispatch_accepted :
    ¬∀ (calls : List EngineCall) (id : WorkloadId) (w : Workload),
      ((ofStore (none : Option (MemoryStateStore .leftToRight))).run calls).get id = some w →
        DispatchFenced ((ofStore (none : Option (MemoryStateStore .leftToRight))).run calls) id w
        ∧ Seated id ((ofStore (none : Option (MemoryStateStore .leftToRight))).events calls) w := by
  intro h
  obtain ⟨w', -, ⟨ep, hf, hauth, -⟩, -⟩ := (h launchAndRestart (.fromU64 1) _ rfl).1
    (.fromU64 1000) (.fromU64 1) (.fromU64 1) (by decide)
  have hold : (((ofStore (none : Option (MemoryStateStore .leftToRight))).run
      launchAndRestart).snapshot (.fromU64 1)).findEpisode (.fromU64 1000) = some ep := hf
  have hfalse : ((((ofStore (none : Option (MemoryStateStore .leftToRight))).run
      launchAndRestart).snapshot (.fromU64 1)).findEpisode (.fromU64 1000)).map
      Episode.authoritative = some false := by decide
  rw [hold, Option.map_some, hauth] at hfalse
  exact absurd hfalse (by decide)

end WorkloadEngine

end WorkloadFabric
