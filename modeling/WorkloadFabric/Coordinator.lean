/-
The coordinator and the workers it dispatches to.

The coordinator runs an engine.  It registers a worker by its HELLO, sends it a DISPATCH for an
episode that the engine admits, and reads what the worker sends, one frame at a time: a PROGRESS
goes into the engine as a report of that episode, a COMPLETE as the end of it.  Between two
frames it makes any other call of the engine, reads from other workers, dispatches again, or
kills a worker; of the frames that the worker had sent, some first ones still arrive.

* **`stretch_inbox`** — whatever a worker is dispatched, its reports follow one on the other
  from the unit where the work was resumed, and it says that it is done only at the total.
-/
import WorkloadFabric.Leases
import WorkloadFabric.Resumption

namespace WorkloadFabric

open Leases

/-! ### Messages -/

/-- A frame that is no message is passed over; what else goes wrong is not caught. -/
def readMsg (f : Frame) : Except MessageError (Option Message) :=
  match decodeMessage f with
  | .ok m => .ok (some m)
  | .error (.protocolError _) => .ok none
  | .error e => .error e

/-- The frame, unless the transport refuses it. -/
def sendMsg (m : Message) : Option Frame :=
  if kMaxFrameSize < (encodeMessage m).length then none else some (encodeMessage m)

/-- What a report says to the coordinator. -/
def noteOf (f : Frame) : Option Note :=
  match readMsg f with
  | .ok (some m) =>
    match m.type with
    | .progress => some (.piece m.value.toNat)
    | .complete => some .done
    | _ => none
  | _ => none

/-- The units that a frame reports. -/
def reported (f : Frame) : ℕ :=
  match noteOf f with
  | some (.piece n) => n
  | _ => 0

/-- What a worker sends when it gets these frames, each with the segments that it has run for
it. -/
def Worker.output (wk : Worker) (frames : List Frame) : List (Frame × List ℕ) :=
  let s := (wk.runWorker frames fun _ => true).session
  s.sent.zip (cut (s.sent.map reported) (s.calls.map (·.1.toNat)))

/-! ### The model -/

/-- A call that the coordinator makes on its own account: reports and ends come from the
workers.  (`mp_proof` makes one report itself, of an episode that was superseded, to see it
refused.) -/
def EngineCall.IsCommand : EngineCall → Prop
  | .on _ (.progress _ _ _ _) => False
  | .on _ (.episodeCompleted _) => False
  | _ => True

/-- An episode that is to be dispatched to a worker. -/
structure Assignment where
  workload : WorkloadId
  episode : ExecutionEpisodeId
  worker : Worker
  chunk : UInt64
  token : Text

/-- What the coordinator keeps of a worker to which it has dispatched. -/
structure Link where
  workload : WorkloadId
  episode : ExecutionEpisodeId
  /-- the frames that are still to be read, each with the segments run for it -/
  inbox : List (Frame × List ℕ)

/-- Only so many of the frames still arrive. -/
def Link.lose (l : Link) (arriving : ℕ) : Link := { l with inbox := l.inbox.take arriving }

/-- A report that was handed to the engine. -/
structure Receipt where
  workload : WorkloadId
  episode : ExecutionEpisodeId
  segments : List ℕ
  outcome : Outcome

structure Coordinator (σ : Type) where
  engine : WorkloadEngine σ
  links : List Link := []
  receipts : List Receipt := []

/-- What the coordinator does next. -/
inductive CoordinatorAction where
  | command (c : {c : EngineCall // c.IsCommand})
  | dispatch (a : Assignment)
  /-- the next frame of the `k`-th link is read -/
  | receive (k : ℕ)
  /-- `killProc`: only so many of the frames on the `k`-th link still arrive -/
  | kill (k arriving : ℕ)

/-- The acknowledgement of a HELLO: REGISTER, with the ids that the worker gave. -/
def registerWorker (hello : Frame) : Option Message :=
  match readMsg hello with
  | .ok (some m) =>
    if m.type = .hello then
      some { type := .register, workerId := m.workerId, bootId := m.bootId }
    else none
  | _ => none

namespace Assignment

/-- What the worker is told to do: the work of `w` that is left. -/
def message (a : Assignment) (total : UInt64) (w : Workload) : Message :=
  { type := .dispatch, workloadId := a.workload.toU64, episodeId := a.episode.toU64,
    episodeGen := 1, workloadGen := w.generation.toU64,
    payload := WorkDescriptor.render total w.progress.completed a.chunk, extra := a.token }

/-- The link to the worker; its HELLO has been read. -/
def link (a : Assignment) (reg : Message) (total : UInt64) (w : Workload) : Link :=
  { workload := a.workload, episode := a.episode
    inbox := (a.worker.output
      (encodeMessage reg :: (sendMsg (a.message total w)).toList)).tail }

end Assignment

namespace Coordinator

variable {σ : Type} [StateStore σ]

/-- A frame of this link has been read. -/
def handle (s : Coordinator σ) (l : Link) (m : Message) (segments : List ℕ) : Coordinator σ :=
  match m.type with
  | .progress =>
    let (r, engine) := s.engine.progress l.workload l.episode (.fromU64 1) m.value m.flag1
    { s with
      engine := engine
      receipts := s.receipts ++ [⟨l.workload, l.episode, segments, r.outcome⟩] }
  | .complete =>
    { s with engine := (s.engine.episodeCompleted l.workload l.episode).2 }
  | _ => s

def dispatch (jobs : WorkloadId → UInt64) (s : Coordinator σ) (a : Assignment) : Coordinator σ :=
  match registerWorker (encodeMessage a.worker.hello) with
  | none => s
  | some reg =>
    let w := s.engine.snapshot a.workload
    let (r, engine) := s.engine.admitDispatch a.workload a.episode (.fromU64 reg.workerId)
      (.fromU64 reg.bootId)
    if isAllow r.outcome then
      { s with engine := engine, links := s.links ++ [a.link reg (jobs a.workload) w] }
    else { s with engine := engine }

def receive (s : Coordinator σ) (k : ℕ) : Coordinator σ :=
  match s.links[k]? with
  | none => s
  | some l =>
    match l.inbox with
    | [] => s
    | (f, segments) :: inbox =>
      let s := { s with links := s.links.set k { l with inbox := inbox } }
      match readMsg f with
      | .ok (some m) => s.handle l m segments
      | _ => s

/-- A coordinator that has dispatched nothing. -/
def ofStore (store : Option σ) : Coordinator σ := { engine := .ofStore store }

/-- One action; `jobs` are the totals of the work. -/
def step (jobs : WorkloadId → UInt64) (s : Coordinator σ) : CoordinatorAction → Coordinator σ
  | .command c => { s with engine := (s.engine.step c.1).2 }
  | .dispatch a => s.dispatch jobs a
  | .receive k => s.receive k
  | .kill k arriving => { s with links := s.links.modify k fun l => l.lose arriving }

def run (jobs : WorkloadId → UInt64) (s : Coordinator σ) (actions : List CoordinatorAction) :
    Coordinator σ :=
  actions.foldl (step jobs) s

/-- The segments that were counted for a workload, in the order in which they were. -/
def counted (receipts : List Receipt) (id : WorkloadId) : List ℕ :=
  (receipts.filter fun r => r.workload = id ∧ r.outcome = .allow).flatMap (·.segments)

end Coordinator

/-! ### What is sent in answer to a dispatch -/

theorem readMsg_of_decode {f : Frame} {m : Message} (h : decodeMessage f = .ok m) :
    readMsg f = .ok (some m) := by
  rw [readMsg, h]

theorem noteOf_progress {wk : Worker} {m : Message} {n : ℕ} (hn : n < 2 ^ 64) :
    noteOf (encodeMessage (wk.progress m (.ofNat n))) = some (.piece n) := by
  rw [noteOf, readMsg_of_decode (wk.decode_progress m _)]
  exact congrArg (fun k => some (Note.piece k)) (UInt64.toNat_ofNat_of_lt' hn)

theorem noteOf_complete {wk : Worker} {m : Message} {result : UInt64} :
    noteOf (encodeMessage (wk.complete m result)) = some .done := by
  rw [noteOf, readMsg_of_decode (wk.decode_complete m result)]
  rfl

theorem noteOf_hello {wk : Worker} : noteOf (encodeMessage wk.hello) = none := by
  rw [noteOf, readMsg_of_decode wk.decode_hello]
  rfl

/-- The worker is registered under the ids it goes by. -/
theorem registerWorker_hello (wk : Worker) :
    registerWorker (encodeMessage wk.hello) =
      some { type := .register, workerId := wk.workerId.toU64, bootId := wk.bootId.toU64 } := by
  rw [registerWorker, readMsg_of_decode wk.decode_hello]
  rfl

/-- What the engine is asked before the worker is told. -/
def Assignment.request (a : Assignment) : Request :=
  .admitDispatch a.episode a.worker.workerId a.worker.bootId

/-- The acknowledgement that the worker gets. -/
def Assignment.register (a : Assignment) : Message :=
  { type := .register, workerId := a.worker.workerId.toU64, bootId := a.worker.bootId.toU64 }

namespace Worker

variable {wk : Worker} {ack m : Message}

/-- A worker that only gets its acknowledgement says no more than HELLO. -/
theorem output_ack (hack : decodeMessage (encodeMessage ack) = .ok ack) :
    (wk.output [encodeMessage ack]).tail = [] := by
  rw [output, runWorker_cons hack rfl]
  rfl

/-- The same goes for one that cannot read what it is to do. -/
theorem output_of_refused (hack : decodeMessage (encodeMessage ack) = .ok ack)
    (hm : decodeMessage (encodeMessage m) = .ok m) (htype : m.type = .dispatch)
    {d : WorkDescriptor} (hd : m.descriptor.parse = .error d) :
    (wk.output [encodeMessage ack, encodeMessage m]).tail = [] := by
  rw [output, runWorker_cons hack rfl, serve, hm]
  dsimp only
  rw [htype]
  dsimp only
  rw [dispatch, hd]
  rfl

/-- A dispatch that is read is answered by one report for each slice of what is left, and by
a COMPLETE. -/
theorem whole_output (hack : decodeMessage (encodeMessage ack) = .ok ack)
    (hm : decodeMessage (encodeMessage m) = .ok m) (htype : m.type = .dispatch)
    {d : ParsedDescriptor} (hd : m.descriptor.parse = .ok d) :
    Whole noteOf d.total.toNat d.chunk.toNat d.resumeFrom.toNat
      (wk.output [encodeMessage ack, encodeMessage m]).tail := by
  set ns := (slices d).chunks 0 (d.total.toNat - d.resumeFrom.toNat) with hns
  have hle := UInt64.le_iff_toNat_le.mp d.resumeFrom_le
  have hsum : ns.sum = d.total.toNat - d.resumeFrom.toNat := (slices d).sum_chunks 0 _
  have hnote : ∀ n ≤ d.chunk.toNat,
      noteOf (encodeMessage (wk.progress m (.ofNat n))) = some (.piece n) :=
    fun n hn => noteOf_progress (hn.trans_lt d.chunk.toNat_lt)
  have hreported : ns.map (fun n => reported (encodeMessage (wk.progress m (.ofNat n)))) = ns := by
    refine (List.map_congr_left fun n hn => ?_).trans (List.map_id' ns)
    rw [reported, hnote n (Chunking.mem_chunks_atMost hn).2]
  set done := wk.complete m (wk.result d.total d.resumeFrom.toNat d.total.toNat)
  have hsent : (wk.runWorker [encodeMessage ack, encodeMessage m] fun _ => true).session.sent =
      encodeMessage wk.hello ::
        (ns.map (fun n => encodeMessage (wk.progress m (.ofNat n))) ++ [encodeMessage done]) := by
    rw [wk.runWorker_dispatch hack hm htype hd]
    rfl
  have hcalls : (wk.runWorker [encodeMessage ack, encodeMessage m] fun _ => true).session.calls.map
      (·.1.toNat) = List.range' d.resumeFrom.toNat (d.total.toNat - d.resumeFrom.toNat) := by
    rw [wk.runWorker_dispatch hack hm htype hd]
    exact toNat_segments d.total _
  have hsizes : (encodeMessage wk.hello ::
      (ns.map (fun n => encodeMessage (wk.progress m (.ofNat n))) ++ [encodeMessage done])).map
        reported = 0 :: (ns ++ [0]) := by
    rw [List.map_cons, List.map_append, List.map_map, List.map_singleton]
    exact congrArg₂ (· :: ·) (by rw [reported, noteOf_hello])
      (congrArg₂ (· ++ ·) hreported (by rw [reported, noteOf_complete]))
  rw [output, hcalls, hsent, hsizes, cut, List.take_zero, List.drop_zero, List.zip_cons_cons,
    List.tail_cons]
  exact Whole.of_chunks _ hnote noteOf_complete (by omega)

end Worker

/-- What the coordinator writes is read as it was meant, if it is. -/
theorem WorkDescriptor.eq_of_parse_render {d : WorkDescriptor} {d' : ParsedDescriptor}
    {total resumeFrom chunk : UInt64} (hraw : d.raw = render total resumeFrom chunk)
    (h : d.parse = .ok d') :
    d'.total = total ∧ d'.resumeFrom = resumeFrom ∧ d'.chunk = chunk := by
  obtain ⟨p₀, p₁, p₂, hparts, ⟨⟨h₀, hc₀⟩, ⟨h₁, hc₁⟩, h₂, hc₂⟩, -⟩ := accepted_of_parse h
  have hdigits (v : UInt64) : colon ∉ decimal v.toNat :=
    colon_not_mem_of_digits (numeral_decimal v).digits
  have hsplit := (splitParts_eq_triple.mpr ⟨hparts, hc₀, hc₁, hc₂⟩).symm.trans
    (splitParts_eq_triple.mpr ⟨hraw, hdigits total, hdigits resumeFrom, hdigits chunk⟩)
  obtain ⟨rfl, rfl, rfl⟩ : _ ∧ _ ∧ _ := by simpa using hsplit
  have heq {p : Text} {v v' : UInt64} (hp : Lax p v) (hp' : Numeral p v') : v = v' :=
    Option.some.inj ((stoull_eq_some.mpr hp).symm.trans (stoull_eq_some.mpr hp'.lax))
  exact ⟨heq h₀ (numeral_decimal _), heq h₁ (numeral_decimal _), heq h₂ (numeral_decimal _)⟩

namespace Assignment

variable {a : Assignment} {total : UInt64} {w : Workload}

/-- **What is on the way from a worker** to which the work of `w` was dispatched. -/
theorem stretch_inbox {reg : Message}
    (hreg : decodeMessage (encodeMessage reg) = .ok reg) :
    Stretch noteOf total.toNat w.progress.completed.toNat (a.link reg total w).inbox := by
  rw [link]
  dsimp only
  by_cases hsize : kMaxFrameSize < (encodeMessage (a.message total w)).length
  · rw [sendMsg, if_pos hsize, Option.toList_none, Worker.output_ack hreg]
    exact .broken
  rw [sendMsg, if_neg hsize, Option.toList_some]
  have hm : decodeMessage (encodeMessage (a.message total w)) = .ok (a.message total w) := by
    refine decodeMessage_short ?_
    have hlength := length_encodeMessage (a.message total w)
    have hmax : kMaxFrameSize = 2 ^ 20 := rfl
    omega
  rcases hd : (a.message total w).descriptor.parse with d | d
  · rw [Worker.output_of_refused hreg hm rfl hd]
    exact .broken
  · obtain ⟨htotal, hresume, -⟩ := WorkDescriptor.eq_of_parse_render rfl hd
    have hchunk : 0 < d.chunk.toNat :=
      Nat.pos_of_ne_zero fun h => d.chunk_ne (UInt64.toNat_inj.mp h)
    have h := (a.worker.whole_output hreg hm rfl hd).stretch hchunk
    rwa [htotal, hresume] at h

/-- **All of it is on the way** where the worker can be told what is left. -/
theorem whole_inbox {reg : Message} (hreg : decodeMessage (encodeMessage reg) = .ok reg)
    (hchunk : a.chunk ≠ 0) (htoken : a.token.length ≤ kMaxFrameSize - 256)
    (hw : w.progress.completed ≤ total) :
    Whole noteOf total.toNat a.chunk.toNat w.progress.completed.toNat
      (a.link reg total w).inbox := by
  have hpayload := WorkDescriptor.length_render total w.progress.completed a.chunk
  have hmax : kMaxFrameSize = 2 ^ 20 := rfl
  have hparts : (a.message total w).payload.length + (a.message total w).extra.length ≤
      kMaxFrameSize - 79 := by
    show (WorkDescriptor.render total w.progress.completed a.chunk).length + a.token.length ≤ _
    omega
  have hsize : ¬kMaxFrameSize < (encodeMessage (a.message total w)).length := by
    rw [length_encodeMessage]
    omega
  have hm : decodeMessage (encodeMessage (a.message total w)) = .ok (a.message total w) :=
    decodeMessage_short (by omega)
  obtain ⟨d, hd, htotal, hresume, hsize'⟩ :
      (a.message total w).descriptor.ParsesAs total w.progress.completed a.chunk :=
    WorkDescriptor.parsesAs_iff.mpr (WorkDescriptor.grammatical_render hchunk hw).accepted
  have h := a.worker.whole_output hreg hm rfl hd
  rw [htotal, hresume, hsize'] at h
  rw [link, sendMsg, if_neg hsize, Option.toList_some]
  exact h

end Assignment

end WorkloadFabric
