/-
The store behind an engine may be any.

The engine knows its store through an interface of four calls.  Two classes implement it: one
keeps its records in a list, the other in the files of a directory.  Both are keepers of one
map, from ids to encoded records (`LawfulStore`), so no run of an engine and no call made on its
store beside it tells which of them is there, as long as no file operation fails: every file here
is opened, written, renamed, read and removed as it should be.

* **`stores_interchangeable`** — a run over a directory without records is answered like the
  same run over an empty store in memory, but for the order of listings and the wording of
  errors; and the files of others stay as they are.
* **`listed_perm_registered`** — after every run on an empty store the records are those of the
  registered workloads, and no others.
-/
import WorkloadFabric.Durability
import WorkloadFabric.Keepers
import WorkloadFabric.Listing

namespace WorkloadFabric

/-! ### Lawful stores -/

/-- What is made of a record, or of its absence; only the errors have texts of their own. -/
def readRecord (order : EvalOrder) (absent corrupt : Text) :
    Option (List UInt8) → Option LoadResult
  | none => some { outcome := .rejectWorkloadNotFound, error := absent }
  | some data => do
    let (status, w) ← decodeWorkload order data
    if isAllow status then return { workload := some w, outcome := .allow }
    else return { outcome := status, error := corrupt }

/-- Only the wording tells how a record was read. -/
theorem readRecord_alike {order : EvalOrder} {absent corrupt absent' corrupt' : Text}
    (record : Option (List UInt8)) :
    (readRecord order absent corrupt record).map (fun l => (l.workload, l.outcome)) =
      (readRecord order absent' corrupt' record).map fun l => (l.workload, l.outcome) := by
  rcases record with _ | data
  · rfl
  · rw [readRecord, readRecord]
    rcases decodeWorkload order data with _ | ⟨status, w⟩
    · rfl
    · simp only [Option.bind_eq_bind, Option.bind_some]
      split <;> rfl

/-- The store keeps encoded records under the ids of their workloads. -/
class LawfulStore (order : outParam EvalOrder) (σ : Type) [StateStore σ] where
  keeper : Keeper σ WorkloadId (List UInt8)
  absent : Text
  corrupt : Text
  save_eq : ∀ (s : σ) (w : Workload),
    StateStore.save s w = (.allow, keeper.put s w.id (encodeWorkload w))
  load_eq : ∀ (s : σ) (id : WorkloadId),
    StateStore.load s id = readRecord order absent corrupt (keeper.lookup s id)
  listIds_eq : ∀ s : σ, StateStore.listIds s = keeper.keys s
  remove_eq : ∀ (s : σ) (id : WorkloadId),
    StateStore.remove s id = ((keeper.lookup s id).isSome, keeper.erase s id)

/-- Files, as they are saved when nothing goes wrong. -/
instance {order : EvalOrder} : StateStore (FileStateStore order) where
  save s w := (.allow, (s.save w none).2)
  load := FileStateStore.load
  listIds := FileStateStore.listIds
  remove := FileStateStore.remove

namespace MemoryStateStore

variable {order : EvalOrder}

def keeper : Keeper (MemoryStateStore order) WorkloadId (List UInt8) :=
  (Keeper.assoc WorkloadId (List UInt8)).wrap records mk fun _ => rfl

instance : LawfulStore order (MemoryStateStore order) where
  keeper := keeper
  absent := text "no such workload"
  corrupt := text "corrupt record"
  save_eq s w := by
    show s.save w = (.allow, ⟨Keeper.assocPut s.records w.id (encodeWorkload w)⟩)
    rw [save, Keeper.assocPut]
    split <;> rfl
  load_eq s id := by
    show s.load id = readRecord order _ _ (Keeper.assocLookup s.records id)
    rw [load, Keeper.assocLookup]
    generalize List.find? _ s.records = found
    rcases found with _ | ⟨id', record⟩ <;> rfl
  listIds_eq _ := rfl
  remove_eq s id := by
    show s.remove id = ((Keeper.assocLookup s.records id).isSome,
      ⟨Keeper.assocErase s.records id⟩)
    rw [remove, Bool.eq_iff_iff.mpr (Keeper.any_key_iff.trans Keeper.assocLookup_isSome.symm)]
    rfl

end MemoryStateStore

namespace FileStateStore

variable {order : EvalOrder}

def keeper : Keeper (FileStateStore order) WorkloadId (List UInt8) :=
  (Keeper.named (List UInt8) fileName listedId listedId_fileName).wrap files mk fun _ => rfl

instance : LawfulStore order (FileStateStore order) where
  keeper := keeper
  absent := text "file not found"
  corrupt := text "corrupt/truncated record"
  save_eq _ _ := rfl
  load_eq s id := by
    show s.load id = readRecord order _ _ (s.files.lookup (fileName id))
    rw [load]
    rcases s.files.lookup (fileName id) with _ | data <;> rfl
  listIds_eq _ := rfl
  remove_eq s id := by
    refine Prod.ext (Bool.eq_iff_iff.mpr ?_) rfl
    exact decide_eq_true_iff.trans AList.lookup_isSome.symm

end FileStateStore

/-! ### An engine and calls on its store -/

inductive StoreCall where
  | save (w : Workload)
  | load (id : WorkloadId)
  | listIds
  | remove (id : WorkloadId)

/-- A call on the engine, or one on its store beside it. -/
inductive HostCall where
  | engine (c : EngineCall)
  | store (c : StoreCall)

inductive Answer where
  | called (r : EngineResult)
  | saved (o : Outcome)
  | loaded (r : Option LoadResult)
  | listed (ids : List WorkloadId)
  | removed (b : Bool)
  /-- there is no store -/
  | storeless

/-- The same, but for the wording of an error and the order of a listing. -/
inductive Answer.Alike : Answer → Answer → Prop
  | called (r : EngineResult) : Alike (.called r) (.called r)
  | saved (o : Outcome) : Alike (.saved o) (.saved o)
  | loaded {r r' : Option LoadResult}
      (h : r.map (fun l => (l.workload, l.outcome)) = r'.map fun l => (l.workload, l.outcome)) :
      Alike (.loaded r) (.loaded r')
  | listed {ids ids' : List WorkloadId} (h : ids.Perm ids') : Alike (.listed ids) (.listed ids')
  | removed (b : Bool) : Alike (.removed b) (.removed b)
  | storeless : Alike .storeless .storeless

section Calls

variable {σ : Type} [StateStore σ]

def StoreCall.perform (s : σ) : StoreCall → Answer × σ
  | .save w => ((.saved (StateStore.save s w).1), (StateStore.save s w).2)
  | .load id => (.loaded (StateStore.load s id), s)
  | .listIds => (.listed (StateStore.listIds s), s)
  | .remove id => ((.removed (StateStore.remove s id).1), (StateStore.remove s id).2)

namespace WorkloadEngine

/-- One call on an engine or its store. -/
def serve (e : WorkloadEngine σ) : HostCall → Answer × WorkloadEngine σ
  | .engine c => (.called (e.step c).1, (e.step c).2)
  | .store c =>
    match e.store with
    | none => (.storeless, e)
    | some s => ((c.perform s).1, { e with store := some (c.perform s).2 })

def serveAll (e : WorkloadEngine σ) (calls : List HostCall) : WorkloadEngine σ :=
  calls.foldl (fun e c => (e.serve c).2) e

/-- How the calls are answered, one after the other. -/
def answers (e : WorkloadEngine σ) : List HostCall → List Answer
  | [] => []
  | c :: calls => (e.serve c).1 :: answers (e.serve c).2 calls

end WorkloadEngine

end Calls

/-! ### Two engines over two stores -/

namespace WorkloadEngine

section Twins

variable {σ τ : Type}

/-- Engines that differ only in their stores, which are so related. -/
structure Twins (R : σ → τ → Prop) (e : WorkloadEngine σ) (e' : WorkloadEngine τ) : Prop where
  workloads : e.workloads = e'.workloads
  counter : e.episodeCounter = e'.episodeCounter
  store : Option.Rel R e.store e'.store

variable {R : σ → τ → Prop} {e : WorkloadEngine σ} {e' : WorkloadEngine τ}

theorem Twins.get (h : Twins R e e') (id : WorkloadId) : e.get id = e'.get id := by
  rw [WorkloadEngine.get, h.workloads]
  rfl

theorem Twins.insert (h : Twins R e e') (id : WorkloadId) (w : Workload) :
    Twins R { e with workloads := e.workloads.insert id w }
      { e' with workloads := e'.workloads.insert id w } :=
  ⟨by rw [h.workloads], h.counter, h.store⟩

variable [StateStore σ] [StateStore τ]
  (hsave : ∀ {s t}, R s t → ∀ w, R (StateStore.save s w).2 (StateStore.save t w).2)

include hsave

theorem Twins.persist (h : Twins R e e') (w : Workload) :
    Twins R (e.persist w) (e'.persist w) := by
  refine ⟨h.workloads, h.counter, ?_⟩
  have hstore := h.store
  simp only [WorkloadEngine.persist]
  generalize e.store = s at hstore ⊢
  generalize e'.store = t at hstore ⊢
  cases hstore with
  | none => exact .none
  | some hst => exact .some (hsave hst w)

theorem Twins.withWorkload (h : Twins R e e') (id : WorkloadId) (mutate : Workload → Effect) :
    (e.withWorkload id mutate).1 = (e'.withWorkload id mutate).1 ∧
      Twins R (e.withWorkload id mutate).2 (e'.withWorkload id mutate).2 := by
  rw [WorkloadEngine.withWorkload, WorkloadEngine.withWorkload, ← h.get id]
  rcases e.get id with _ | w
  · exact ⟨rfl, h⟩
  · refine ⟨rfl, ?_⟩
    dsimp only
    split
    · exact (h.insert id _).persist hsave _
    · exact h.insert id _

/-- **A call is answered alike, and leaves twins.** -/
theorem Twins.step (h : Twins R e e') (c : EngineCall) :
    (e.step c).1 = (e'.step c).1 ∧ Twins R (e.step c).2 (e'.step c).2 := by
  cases c with
  | create id name intent policy =>
    rw [WorkloadEngine.step, WorkloadEngine.step, create, create, ← h.get id]
    rcases e.get id with _ | w
    · exact ⟨rfl, (h.insert id _).persist hsave _⟩
    · exact ⟨rfl, h⟩
  | on id r =>
    cases r
    case validate =>
      rw [WorkloadEngine.step, WorkloadEngine.step, validate, validate, ← h.get id]
      rcases e.get id with _ | w
      · exact ⟨rfl, h⟩
      · obtain ⟨hr, he⟩ := h.withWorkload hsave id
          fun w => w.transition .validating w.generation (text "validate") none
        exact ⟨by dsimp only; rw [hr], he⟩
    case startEpisode owner ownerGen =>
      rw [WorkloadEngine.step, WorkloadEngine.step, startEpisode, startEpisode, ← h.get id]
      rcases e.get id with _ | w
      · exact ⟨rfl, h⟩
      · have hnext : Twins R { e with episodeCounter := e.episodeCounter + 1 }
            { e' with episodeCounter := e'.episodeCounter + 1 } :=
          ⟨h.workloads, by rw [h.counter], h.store⟩
        dsimp only
        rw [← h.counter] at hnext ⊢
        obtain ⟨hr, he⟩ := hnext.withWorkload hsave id
          fun w => w.startEpisode (.fromU64 e.episodeCounter) owner ownerGen true none
        exact ⟨by rw [hr], he⟩
    all_goals exact h.withWorkload hsave id _

end Twins

/-! ### Engines over stores that hold the same records -/

section Lawful

variable {order : EvalOrder} {σ τ : Type} [StateStore σ] [StateStore τ] [LawfulStore order σ]
  [LawfulStore order τ]

def SameRecords (s : σ) (t : τ) : Prop :=
  Keeper.Alike (LawfulStore.keeper (σ := σ)) (LawfulStore.keeper (σ := τ)) s t

theorem SameRecords.save {s : σ} {t : τ} (h : SameRecords s t) (w : Workload) :
    SameRecords (StateStore.save s w).2 (StateStore.save t w).2 := by
  rw [LawfulStore.save_eq, LawfulStore.save_eq]
  exact h.put w.id (encodeWorkload w)

variable {e : WorkloadEngine σ} {e' : WorkloadEngine τ}

theorem Twins.serve (h : Twins SameRecords e e') (c : HostCall) :
    (e.serve c).1.Alike (e'.serve c).1 ∧ Twins SameRecords (e.serve c).2 (e'.serve c).2 := by
  cases c with
  | engine c =>
    obtain ⟨hr, hnext⟩ := h.step SameRecords.save c
    rw [WorkloadEngine.serve, WorkloadEngine.serve, hr]
    exact ⟨.called _, hnext⟩
  | store c =>
    have hstore := h.store
    rw [WorkloadEngine.serve, WorkloadEngine.serve]
    rcases hs : e.store with _ | s <;> rcases ht : e'.store with _ | t <;> rw [hs, ht] at hstore
    · exact ⟨.storeless, h⟩
    · cases hstore
    · cases hstore
    · cases hstore with
      | some hst =>
        dsimp only
        cases c with
        | save w =>
          rw [StoreCall.perform, StoreCall.perform, LawfulStore.save_eq, LawfulStore.save_eq]
          exact ⟨.saved _, h.workloads, h.counter, .some (hst.put w.id (encodeWorkload w))⟩
        | load id =>
          rw [StoreCall.perform, StoreCall.perform, LawfulStore.load_eq, LawfulStore.load_eq,
            hst.lookup]
          exact ⟨.loaded (readRecord_alike _), h.workloads, h.counter, .some hst⟩
        | listIds =>
          rw [StoreCall.perform, StoreCall.perform, LawfulStore.listIds_eq,
            LawfulStore.listIds_eq]
          exact ⟨.listed hst.keys_perm, h.workloads, h.counter, .some hst⟩
        | remove id =>
          rw [StoreCall.perform, StoreCall.perform, LawfulStore.remove_eq,
            LawfulStore.remove_eq, hst.lookup]
          exact ⟨.removed _, h.workloads, h.counter, .some (hst.erase id)⟩

/-- **Twins are answered alike throughout.** -/
theorem Twins.answers (h : Twins SameRecords e e') (calls : List HostCall) :
    List.Forall₂ Answer.Alike (e.answers calls) (e'.answers calls) := by
  induction calls generalizing e e' with
  | nil => exact .nil
  | cons c calls ih =>
    obtain ⟨hanswer, hnext⟩ := h.serve c
    exact .cons hanswer (ih hnext)

end Lawful

/-! ### Files of others -/

/-- What the directory holds under a name that is no record's. -/
theorem foreign_serveAll {order : EvalOrder} {name : Text}
    (hname : FileStateStore.listedId name = none) (content : Option (List UInt8))
    (calls : List HostCall) {e : WorkloadEngine (FileStateStore order)}
    (h : ∀ s ∈ e.store, s.files.lookup name = content) :
    ∀ s ∈ (e.serveAll calls).store, s.files.lookup name = content := by
  have hput (s : FileStateStore order) (w : Workload) :
      (StateStore.save s w).2.files.lookup name = s.files.lookup name :=
    (Keeper.named_foreign FileStateStore.listedId_fileName hname s.files w.id
      (encodeWorkload w)).1
  have herase (s : FileStateStore order) (id : WorkloadId) :
      (StateStore.remove s id).2.files.lookup name = s.files.lookup name :=
    (Keeper.named_foreign FileStateStore.listedId_fileName hname s.files id []).2
  refine List.foldlRecOn (motive := fun e : WorkloadEngine (FileStateStore order) =>
    ∀ s ∈ e.store, s.files.lookup name = content) calls _ h fun e he c _ => ?_
  have hself : Twins (fun s t : FileStateStore order => s = t ∧ s.files.lookup name = content)
      e e := by
    refine ⟨rfl, rfl, ?_⟩
    rcases hs : e.store with _ | s
    · exact .none
    · exact .some ⟨rfl, he s hs⟩
  cases c with
  | engine c =>
    obtain ⟨-, -, -, hstore⟩ := hself.step (fun ⟨hst, hs⟩ w => ⟨by rw [hst], (hput _ w).trans hs⟩) c
    intro s hs
    rw [WorkloadEngine.serve] at hs
    dsimp only at hs
    rw [Option.mem_def.mp hs] at hstore
    cases hstore with
    | some hst => exact hst.2
  | store c =>
    intro s hs
    rw [WorkloadEngine.serve] at hs
    rcases hold : e.store with _ | s₀
    · rw [hold] at hs
      exact he s hs
    · have hs₀ := he s₀ hold
      rw [hold] at hs
      obtain rfl := Option.some.inj hs
      cases c with
      | save w => exact (hput s₀ w).trans hs₀
      | remove id => exact (herase s₀ id).trans hs₀
      | load | listIds => exact hs₀

/-- **The stores are interchangeable.**  Over a directory in which no name is read as an id, an
engine and its store answer every sequence of calls as they do over an empty store in memory,
but for the order of listings and the wording of errors, if no file operation fails; and the files
that were there stay as they are. -/
theorem stores_interchangeable {order : EvalOrder} {files : AList fun _ : Text => List UInt8}
    (hfiles : ∀ name ∈ files, FileStateStore.listedId name = none) (calls : List HostCall) :
    List.Forall₂ Answer.Alike ((ofStore (some ({} : MemoryStateStore order))).answers calls)
      ((ofStore (some (⟨files⟩ : FileStateStore order))).answers calls) ∧
    ∀ name ∈ files, ∀ s ∈ ((ofStore (some (⟨files⟩ : FileStateStore order))).serveAll calls).store,
      s.files.lookup name = files.lookup name := by
  have halike : Twins SameRecords (ofStore (some ({} : MemoryStateStore order)))
      (ofStore (some (⟨files⟩ : FileStateStore order))) := by
    refine ⟨rfl, rfl, .some ⟨List.nodup_nil, fun name hname id hid => ?_, fun id => ?_⟩⟩
    · exact absurd ((hfiles name hname).symm.trans hid) (by simp)
    · have habsent : files.lookup (FileStateStore.fileName id) = none := by
        rw [AList.lookup_eq_none]
        intro hmem
        exact absurd ((hfiles _ hmem).symm.trans (FileStateStore.listedId_fileName id)) (by simp)
      exact habsent.symm
  refine ⟨halike.answers calls, fun name hname => ?_⟩
  refine foreign_serveAll (hfiles name hname) (files.lookup name) calls fun s hs => ?_
  obtain rfl := Option.some.inj hs
  rfl

/-- A workload is launched, listed, loaded and removed. -/
def launchAndRemove : List HostCall :=
  (launch (.fromU64 1) {}).map .engine ++
    [.store .listIds, .store (.load (.fromU64 1)), .store (.remove (.fromU64 1))]

/-- The directory holds a file of another kind. -/
theorem stores_interchangeable_readme :
    List.Forall₂ Answer.Alike
      ((ofStore (some ({} : MemoryStateStore .leftToRight))).answers launchAndRemove)
      ((ofStore (some (⟨(∅ : AList fun _ : Text => List UInt8).insert (text "README")
        [104, 105]⟩ : FileStateStore .leftToRight))).answers launchAndRemove) := by
  refine (stores_interchangeable (fun name hname => ?_) launchAndRemove).1
  rcases (AList.mem_insert _).mp hname with rfl | hname
  · decide
  · exact absurd hname (AList.notMem_empty name)

/-! ### Records of registered workloads -/

section Registered

variable {order : EvalOrder} {σ : Type} [StateStore σ] [LawfulStore order σ]

/-- There is a record under an id exactly when a workload is registered under it. -/
structure Mirrors (e : WorkloadEngine σ) (s : σ) : Prop where
  store : e.store = some s
  valid : (LawfulStore.keeper (σ := σ)).Valid s
  isSome_lookup : ∀ id, ((LawfulStore.keeper (σ := σ)).lookup s id).isSome = (e.get id).isSome

/-- What is saved under a registered id adds no record. -/
theorem Mirrors.save {e e' : WorkloadEngine σ} {s : σ} (h : Mirrors e s) {w : Workload}
    (hstore : e'.store = e.store.map fun s => (StateStore.save s w).2)
    (hget : ∀ id, e'.get id = if w.id = id then some w else e.get id) :
    Mirrors e' (StateStore.save s w).2 := by
  refine ⟨by rw [hstore, h.store, Option.map_some], ?_, fun id => ?_⟩
  · rw [LawfulStore.save_eq]
    exact (LawfulStore.keeper (σ := σ)).valid_put h.valid _ _
  · rw [LawfulStore.save_eq, (LawfulStore.keeper (σ := σ)).lookup_put h.valid, hget]
    split
    · rfl
    · exact h.isSome_lookup id

theorem Mirrors.step {e : WorkloadEngine σ} {s : σ} (h : Mirrors e s)
    (hid : ∀ id w, e.get id = some w → w.id = id) (c : EngineCall) :
    ∃ s', Mirrors (e.step c).2 s' := by
  cases c with
  | create id name intent policy =>
    rcases hw : e.get id with _ | w
    · obtain ⟨-, -, hget⟩ := e.step_create_none hw name intent policy
      exact ⟨_, h.save (e.step_create_store hw name intent policy) hget⟩
    · rw [e.step_create_some hw]
      exact ⟨s, h⟩
  | on id r =>
    rcases hw : e.get id with _ | w
    · rw [e.step_on_none hw]
      exact ⟨s, h⟩
    · obtain ⟨-, -, hget⟩ := e.step_on_some hw r
      have hstore := e.step_on_store hw r
      have hid' : (w.apply (r.operation e.episodeCounter w) none).workload.id = id :=
        (w.apply_step none _).id_eq.trans (hid id w hw)
      split at hstore
      · rw [← hid'] at hget hstore ⊢
        exact ⟨_, h.save hstore hget⟩
      · refine ⟨s, hstore.trans h.store, h.valid, fun id' => ?_⟩
        rw [h.isSome_lookup id', hget]
        split
        · next heq => rw [← heq, hw]; rfl
        · rfl

/-- **The store lists what is registered.**  After every run on an empty store of which no operation
fails its records are those of the registered workloads, each once, and nothing is found under any
other id. -/
theorem listed_perm_registered (s₀ : σ) (hvalid : (LawfulStore.keeper (σ := σ)).Valid s₀)
    (hempty : ∀ id, (LawfulStore.keeper (σ := σ)).lookup s₀ id = none)
    (calls : List EngineCall) :
    ∃ s, ((ofStore (some s₀)).run calls).store = some s ∧
      (StateStore.listIds s).Perm ((ofStore (some s₀)).run calls).list ∧
      ∀ id, ((ofStore (some s₀)).run calls).isRegistered id = false →
        (StateStore.load s id).map (·.outcome) = some .rejectWorkloadNotFound := by
  obtain ⟨s, hs⟩ : ∃ s, Mirrors ((ofStore (some s₀)).run calls) s := by
    induction calls using List.reverseRecOn with
    | nil => exact ⟨s₀, rfl, hvalid, fun id => by rw [hempty]; rfl⟩
    | append_singleton calls c ih =>
      obtain ⟨s, hs⟩ := ih
      rw [run_append_singleton]
      exact hs.step (fun _ _ hw => id_of_run hw) c
  refine ⟨s, hs.store, ?_, fun id hid => ?_⟩
  · rw [LawfulStore.listIds_eq]
    refine (List.perm_ext_iff_of_nodup ((LawfulStore.keeper (σ := σ)).nodup_keys hs.valid)
      Std.TreeMap.nodup_keys).mpr fun id => ?_
    rw [(LawfulStore.keeper (σ := σ)).mem_keys hs.valid, hs.isSome_lookup,
      Option.isSome_iff_exists]
    exact mem_list_iff.symm
  · have hnone : (LawfulStore.keeper (σ := σ)).lookup s id = none := by
      rw [← Option.not_isSome_iff_eq_none, hs.isSome_lookup, Bool.not_eq_true, get,
        ← Std.TreeMap.contains_eq_isSome_getElem?]
      exact hid
    rw [LawfulStore.load_eq, hnone]
    rfl

theorem listed_perm_registered_launched :
    ∃ s, ((ofStore (some ({} : MemoryStateStore .leftToRight))).run
        (launch (.fromU64 1) {})).store = some s ∧
      (StateStore.listIds s).Perm [.fromU64 1] := by
  obtain ⟨s, hs, hperm, -⟩ := listed_perm_registered ({} : MemoryStateStore .leftToRight)
    List.nodup_nil (fun _ => rfl) (launch (.fromU64 1) {})
  exact ⟨s, hs, hperm⟩

end Registered

end WorkloadEngine

end WorkloadFabric
