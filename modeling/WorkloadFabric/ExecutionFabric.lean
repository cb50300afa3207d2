/-
The reference adapter of the execution fabric, and what a handle stands for in it.

The entries are kept by episode, but a handle is looked for by its worker and its boot, and
no call ever sets these: every handle of the adapter carries the invalid worker and the
invalid boot.

* **`unassigned_run`** — that much holds of every run;
* **`handles_address_one_episode_iff`** — a handle stands for its own episode exactly in the
  runs that deal with one episode only;
* **`cancel_reaches_other_episode`** — the second episode is cancelled by the handle of the
  first.
-/
import WorkloadFabric.Workload

namespace WorkloadFabric

inductive ExecutionState where
  | dispatched
  | running
  | suspended
  | preempted
  | cancelled
  | completed
  | failed
  | lost
  | unknown
deriving DecidableEq, Repr

namespace ReferenceExecutionFabric

structure Entry where
  handle : ExecutionHandle := {}
  state : ExecutionState := .dispatched
  completed : Bool := false
deriving DecidableEq

end ReferenceExecutionFabric

structure ReferenceExecutionFabric where
  entries : Std.TreeMap ExecutionEpisodeId ReferenceExecutionFabric.Entry := {}

namespace ReferenceExecutionFabric

/-! ### The adapter -/

def requestExecution (f : ReferenceExecutionFabric) (episode : ExecutionEpisodeId)
    (intent : Text) : Outcome × ReferenceExecutionFabric :=
  (.allow, ⟨f.entries.insert episode { handle := { attemptGeneration := 1, intent := intent } }⟩)

/-- `out` is left alone when no entry is found. -/
def observeExecution (f : ReferenceExecutionFabric) (handle : ExecutionHandle)
    (out : ExecutionState) : Outcome × ExecutionState :=
  match f.entries.toList.find? fun p =>
      p.2.handle.worker = handle.worker ∧ p.2.handle.boot = handle.boot with
  | some (_, entry) => (.allow, entry.state)
  | none => (.rejectEpisodeIneligible, out)

/-- The loop of the three calls below. -/
def setState (f : ReferenceExecutionFabric) (handle : ExecutionHandle) (state : ExecutionState) :
    ReferenceExecutionFabric :=
  ⟨f.entries.map fun _ entry =>
    if entry.handle.boot = handle.boot then { entry with state := state } else entry⟩

def cancelExecution (f : ReferenceExecutionFabric) (handle : ExecutionHandle) :
    Outcome × ReferenceExecutionFabric :=
  (.allow, f.setState handle .cancelled)

def preemptExecution (f : ReferenceExecutionFabric) (handle : ExecutionHandle) :
    Outcome × ReferenceExecutionFabric :=
  (.allow, f.setState handle .preempted)

def resumeExecution (f : ReferenceExecutionFabric) (handle : ExecutionHandle) :
    Outcome × ReferenceExecutionFabric :=
  (.allow, f.setState handle .running)

/-- The worker is not compared here. -/
def observeCompletion (f : ReferenceExecutionFabric) (handle : ExecutionHandle) (out : Bool) :
    Outcome × Bool :=
  match f.entries.toList.find? fun p => p.2.handle.boot = handle.boot with
  | some (_, entry) => (.allow, entry.completed)
  | none => (.rejectEpisodeIneligible, out)

def currentHandle (f : ReferenceExecutionFabric) (episode : ExecutionEpisodeId) :
    Option ExecutionHandle :=
  f.entries[episode]?.map (·.handle)

/-- An entry is made if there is none. -/
def reportCompletionForTest (f : ReferenceExecutionFabric) (episode : ExecutionEpisodeId)
    (attemptGen : UInt64) : ReferenceExecutionFabric :=
  let e := f.entries[episode]?.getD {}
  ⟨f.entries.insert episode { e with
    completed := true, state := .completed
    handle := { e.handle with attemptGeneration := attemptGen } }⟩

/-- The calls that change something. -/
inductive Call where
  | requestExecution (episode : ExecutionEpisodeId) (intent : Text)
  | cancelExecution (handle : ExecutionHandle)
  | preemptExecution (handle : ExecutionHandle)
  | resumeExecution (handle : ExecutionHandle)
  | reportCompletionForTest (episode : ExecutionEpisodeId) (attemptGen : UInt64)

def step (f : ReferenceExecutionFabric) : Call → ReferenceExecutionFabric
  | .requestExecution episode intent => (f.requestExecution episode intent).2
  | .cancelExecution handle => (f.cancelExecution handle).2
  | .preemptExecution handle => (f.preemptExecution handle).2
  | .resumeExecution handle => (f.resumeExecution handle).2
  | .reportCompletionForTest episode attemptGen => f.reportCompletionForTest episode attemptGen

def run (f : ReferenceExecutionFabric) (calls : List Call) : ReferenceExecutionFabric :=
  calls.foldl step f

/-- The episode a call names. -/
def Call.episode : Call → Option ExecutionEpisodeId
  | .requestExecution episode _ | .reportCompletionForTest episode _ => some episode
  | _ => none

/-! ### Entries -/

variable {f : ReferenceExecutionFabric} {episode : ExecutionEpisodeId}

theorem getElem?_setState (handle : ExecutionHandle) (state : ExecutionState) :
    (f.setState handle state).entries[episode]? = f.entries[episode]?.map fun entry =>
      if entry.handle.boot = handle.boot then { entry with state := state } else entry :=
  Std.TreeMap.getElem?_map

/-- **Entries are made for the episodes that are named**, and stay. -/
theorem mem_step_iff (c : Call) :
    episode ∈ (f.step c).entries ↔ c.episode = some episode ∨ episode ∈ f.entries := by
  have hset (handle : ExecutionHandle) (state : ExecutionState) :
      episode ∈ (f.setState handle state).entries ↔ none = some episode ∨ episode ∈ f.entries := by
    rw [or_iff_right (by simp)]
    exact Std.TreeMap.mem_map
  have hins (episode' : ExecutionEpisodeId) (entry : Entry) :
      episode ∈ f.entries.insert episode' entry ↔
        some episode' = some episode ∨ episode ∈ f.entries := by
    rw [Std.TreeMap.mem_insert, Std.LawfulEqCmp.compare_eq_iff_eq, Option.some.injEq]
  cases c with
  | requestExecution episode' intent => exact hins episode' _
  | reportCompletionForTest episode' attemptGen => exact hins episode' _
  | cancelExecution handle => exact hset handle _
  | preemptExecution handle => exact hset handle _
  | resumeExecution handle => exact hset handle _

theorem mem_run_iff (calls : List Call) : episode ∈ (f.run calls).entries ↔
    (∃ c ∈ calls, c.episode = some episode) ∨ episode ∈ f.entries := by
  induction calls generalizing f with
  | nil => simp [run]
  | cons c calls ih =>
    show episode ∈ ((f.step c).run calls).entries ↔ _
    rw [ih, mem_step_iff]
    simp only [List.mem_cons, exists_eq_or_imp]
    rw [or_left_comm, or_assoc]

/-- No entry has a worker or a boot. -/
def Unassigned (f : ReferenceExecutionFabric) : Prop :=
  ∀ (episode : ExecutionEpisodeId) (entry : Entry), f.entries[episode]? = some entry →
    entry.handle.worker = {} ∧ entry.handle.boot = {}

theorem Unassigned.insert (h : f.Unassigned) {entry : Entry}
    (hentry : entry.handle.worker = {} ∧ entry.handle.boot = {}) :
    (⟨f.entries.insert episode entry⟩ : ReferenceExecutionFabric).Unassigned := by
  intro episode' entry' h'
  rw [Std.TreeMap.getElem?_insert] at h'
  split at h'
  · exact Option.some.inj h' ▸ hentry
  · exact h episode' entry' h'

theorem Unassigned.setState (h : f.Unassigned) (handle : ExecutionHandle)
    (state : ExecutionState) : (f.setState handle state).Unassigned := by
  intro episode entry' h'
  rw [getElem?_setState] at h'
  obtain ⟨entry, hentry, rfl⟩ := Option.map_eq_some_iff.mp h'
  have := h episode entry hentry
  split
  · exact this
  · exact this

theorem Unassigned.step (h : f.Unassigned) (c : Call) : (f.step c).Unassigned := by
  cases c with
  | requestExecution episode intent => exact h.insert ⟨rfl, rfl⟩
  | reportCompletionForTest episode attemptGen =>
    refine h.insert ?_
    rcases hentry : f.entries[episode]? with _ | entry
    · exact ⟨rfl, rfl⟩
    · exact h episode entry hentry
  | cancelExecution handle => exact h.setState handle _
  | preemptExecution handle => exact h.setState handle _
  | resumeExecution handle => exact h.setState handle _

/-- **No handle ever gets a worker or a boot.** -/
theorem unassigned_run (calls : List Call) : (run {} calls).Unassigned := by
  have hstart : Unassigned {} := by
    intro episode entry h
    simp at h
  exact List.foldlRecOn calls step hstart fun f h c _ => h.step c

/-! ### Handles -/

/-- The state an episode is in. -/
def stateOf (f : ReferenceExecutionFabric) (episode : ExecutionEpisodeId) :
    Option ExecutionState :=
  f.entries[episode]?.map (·.state)

/-- The handle observes the entry of its episode, and nothing done through it changes the
state of another one. -/
structure AddressesOnly (f : ReferenceExecutionFabric) (episode : ExecutionEpisodeId)
    (handle : ExecutionHandle) (entry : Entry) : Prop where
  observes : ∀ out, f.observeExecution handle out = (.allow, entry.state)
  completes : ∀ out, f.observeCompletion handle out = (.allow, entry.completed)
  cancels : ∀ other ≠ episode, (f.cancelExecution handle).2.stateOf other = f.stateOf other
  preempts : ∀ other ≠ episode, (f.preemptExecution handle).2.stateOf other = f.stateOf other
  resumes : ∀ other ≠ episode, (f.resumeExecution handle).2.stateOf other = f.stateOf other

/-- Every current handle addresses its own episode only. -/
def HandlesAddressOneEpisode (f : ReferenceExecutionFabric) : Prop :=
  ∀ episode handle, f.currentHandle episode = some handle →
    ∃ entry, f.entries[episode]? = some entry ∧ f.AddressesOnly episode handle entry

/-- A search that only the entry of one episode can answer is answered by it. -/
theorem find?_eq_some {p : ExecutionEpisodeId × Entry → Bool} {entry : Entry}
    (h : f.entries[episode]? = some entry) (hp : p (episode, entry))
    (honly : ∀ episode' ∈ f.entries, episode' = episode) :
    f.entries.toList.find? p = some (episode, entry) := by
  have hmem : (episode, entry) ∈ f.entries.toList :=
    Std.TreeMap.mem_toList_iff_getElem?_eq_some.mpr h
  rcases hfind : f.entries.toList.find? p with _ | ⟨episode', entry'⟩
  · exact absurd hp (List.find?_eq_none.mp hfind _ hmem)
  · have hget : f.entries[episode']? = some entry' :=
      Std.TreeMap.mem_toList_iff_getElem?_eq_some.mp (List.mem_of_find?_eq_some hfind)
    obtain rfl := honly episode' (Std.TreeMap.mem_iff_isSome_getElem?.mpr (by rw [hget]; rfl))
    rw [Option.some.inj (h.symm.trans hget)]

/-- What is not there has no state, before and after. -/
theorem stateOf_setState_of_not_mem (h : episode ∉ f.entries) (handle : ExecutionHandle)
    (state : ExecutionState) : (f.setState handle state).stateOf episode = f.stateOf episode := by
  have hnone : f.entries[episode]? = none := Std.TreeMap.getElem?_eq_none h
  rw [stateOf, stateOf, getElem?_setState, hnone]
  rfl

/-- Without boots to tell them apart, every entry is reached. -/
theorem Unassigned.stateOf_setState (h : f.Unassigned) {handle : ExecutionHandle}
    (hboot : handle.boot = {}) (hmem : episode ∈ f.entries) (state : ExecutionState) :
    (f.setState handle state).stateOf episode = some state := by
  obtain ⟨entry, hentry⟩ :=
    Option.isSome_iff_exists.mp (Std.TreeMap.mem_iff_isSome_getElem?.mp hmem)
  rw [stateOf, getElem?_setState, hentry, Option.map_some, Option.map_some,
    if_pos ((h episode entry hentry).2.trans hboot.symm)]

/-- **Handles address one episode exactly if there is no second one.** -/
theorem Unassigned.handles_iff (h : f.Unassigned) : f.HandlesAddressOneEpisode ↔
    ∀ episode ∈ f.entries, ∀ other ∈ f.entries, other = episode := by
  constructor
  · -- what is cancelled cannot have been preempted as well
    intro haddr episode hmem other hother
    by_contra hne
    obtain ⟨entry, hentry⟩ :=
      Option.isSome_iff_exists.mp (Std.TreeMap.mem_iff_isSome_getElem?.mp hmem)
    obtain ⟨_, _, hone⟩ := haddr episode entry.handle (by rw [currentHandle, hentry]; rfl)
    have hboot := (h episode entry hentry).2
    have hcancel := (h.stateOf_setState hboot hother .cancelled).symm.trans (hone.cancels other hne)
    have hpreempt :=
      (h.stateOf_setState hboot hother .preempted).symm.trans (hone.preempts other hne)
    exact nomatch hcancel.trans hpreempt.symm
  · intro honly episode handle hcurrent
    obtain ⟨entry, hentry, rfl⟩ := Option.map_eq_some_iff.mp hcurrent
    have hmem : episode ∈ f.entries :=
      Std.TreeMap.mem_iff_isSome_getElem?.mpr (by rw [hentry]; rfl)
    have hkept (state : ExecutionState) (other : ExecutionEpisodeId) (hne : other ≠ episode) :
        (f.setState entry.handle state).stateOf other = f.stateOf other :=
      stateOf_setState_of_not_mem (fun hother => hne (honly episode hmem other hother)) _ _
    refine ⟨entry, hentry, fun out => ?_, fun out => ?_, hkept .cancelled, hkept .preempted,
      hkept .running⟩
    · rw [observeExecution, find?_eq_some hentry (by simp) (honly episode hmem)]
    · rw [observeCompletion, find?_eq_some hentry (by simp) (honly episode hmem)]

/-- **Handles address one episode exactly in the runs that name only one**: at the end of
every run, over any number of episodes. -/
theorem handles_address_one_episode_iff (calls : List Call) :
    (run {} calls).HandlesAddressOneEpisode ↔
      ∀ c ∈ calls, ∀ c' ∈ calls, ∀ episode episode',
        c.episode = some episode → c'.episode = some episode' → episode' = episode := by
  rw [(unassigned_run calls).handles_iff]
  have hmem (episode : ExecutionEpisodeId) :
      episode ∈ (run {} calls).entries ↔ ∃ c ∈ calls, c.episode = some episode := by
    rw [mem_run_iff, or_iff_left (by simp)]
  simp only [hmem]
  constructor
  · exact fun h c hc c' hc' episode episode' he he' => h episode ⟨c, hc, he⟩ episode' ⟨c', hc', he'⟩
  · rintro h episode ⟨c, hc, he⟩ episode' ⟨c', hc', he'⟩
    exact h c hc c' hc' episode episode' he he'

/-- Two episodes are dispatched. -/
def twoRequests : List Call :=
  [.requestExecution (.fromU64 1) (text "a"), .requestExecution (.fromU64 2) (text "b")]

/-- Cancelling the first cancels both. -/
theorem cancel_reaches_other_episode : ¬(run {} twoRequests).HandlesAddressOneEpisode := by
  intro h
  obtain ⟨entry, -, hone⟩ := h (.fromU64 1) { attemptGeneration := 1, intent := text "a" } rfl
  have hcancel := hone.cancels (.fromU64 2) (by decide)
  exact absurd hcancel (by decide)

end ReferenceExecutionFabric

end WorkloadFabric
