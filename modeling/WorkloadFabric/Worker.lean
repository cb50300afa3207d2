/-
The worker runtime: announce, wait for a first frame, then serve frames until one of them or
the peer puts an end to it.

A session records what passes between the worker and the world: the frames sent to the peer,
whose answer to each send is given from outside, and the segments that the runner is given.
The frames to come are a list; behind the last one the peer is closed.

* **`dispatch_covers_remaining`** — a dispatch runs the segments that remain, each once and in
  order, and reports them in slices that add up.
* **`dispatches_answered_iff`** — dispatches are answered and ends are heeded exactly when the
  first frame, which the worker takes for its registration, is none of these.
* **`returns_code_iff`** — the worker returns a code exactly when the first frame is not one
  that `decodeMessage` refuses.
-/
import WorkloadFabric.Protocol
import WorkloadFabric.Descriptor
import WorkloadFabric.Transport

namespace WorkloadFabric

/-! ### The model -/

/-- The work of a segment, which is told the total. -/
abbrev SegmentRunner := UInt64 → UInt64 → UInt64

/-- What goes out of the worker. -/
structure Session where
  /-- whether the peer takes the `n`-th frame -/
  accepts : ℕ → Bool
  offered : ℕ := 0
  sent : List Frame := []
  /-- the segments that the runner was given, with the total it was told -/
  calls : List (UInt64 × UInt64) := []

namespace Session

def sendFrame (s : Session) (frame : Frame) : Bool × Session :=
  if s.accepts s.offered then
    (true, { s with offered := s.offered + 1, sent := s.sent ++ [frame] })
  else (false, { s with offered := s.offered + 1 })

def call (s : Session) (segment total : UInt64) : Session :=
  { s with calls := s.calls ++ [(segment, total)] }

end Session

def Message.descriptor (m : Message) : WorkDescriptor := { raw := m.payload, token := m.extra }

/-- A worker process. -/
structure Worker where
  runner : SegmentRunner
  workerId : WorkerId
  bootId : WorkerBootId

namespace Worker

def hello (wk : Worker) : Message :=
  { type := .hello, workerId := wk.workerId.toU64, bootId := wk.bootId.toU64 }

def pong : Message := { type := .ping }

def progress (wk : Worker) (m : Message) (step : UInt64) : Message :=
  { type := .progress, workloadId := m.workloadId, episodeId := m.episodeId,
    episodeGen := m.episodeGen, workloadGen := m.workloadGen, workerId := wk.workerId.toU64,
    bootId := wk.bootId.toU64, value := step, flag1 := true }

def complete (wk : Worker) (m : Message) (result : UInt64) : Message :=
  { type := .complete, workloadId := m.workloadId, episodeId := m.episodeId,
    episodeGen := m.episodeGen, workloadGen := m.workloadGen, workerId := wk.workerId.toU64,
    bootId := wk.bootId.toU64, payload := decimal result.toNat }

/-- The inner loop: the runner is given the `step` segments from `first` on. -/
def runSegments (wk : Worker) (total first step : UInt64) (result : UInt64) (s : Session) :
    UInt64 × Session :=
  (List.range step.toNat).foldl
    (fun (result, s) u =>
      let segment := first + .ofNat u
      (result + wk.runner segment total, s.call segment total))
    (result, s)

theorem toNat_min (a b : UInt64) : (min a b).toNat = min a.toNat b.toNat := by
  rcases le_total a.toNat b.toNat with h | h
  · rw [min_eq_left h]
    exact congrArg UInt64.toNat (if_pos (UInt64.le_iff_toNat_le.mpr h))
  · rw [min_eq_right h]
    by_cases hab : a ≤ b
    · rw [show min a b = a from if_pos hab]
      exact le_antisymm (UInt64.le_iff_toNat_le.mp hab) h
    · rw [show min a b = b from if_neg hab]

/-- A slice is what the chunk allows of what is left. -/
theorem toNat_step (chunk : UInt64) {remaining reported : UInt64} (h : reported < remaining) :
    (min chunk (remaining - reported)).toNat =
      min chunk.toNat (remaining.toNat - reported.toNat) := by
  rw [toNat_min, UInt64.toNat_sub_of_le _ _ (UInt64.le_of_lt h)]

/-- Counting a slice does not overflow. -/
theorem toNat_add_step (chunk : UInt64) {remaining reported : UInt64} (h : reported < remaining) :
    (reported + min chunk (remaining - reported)).toNat =
      reported.toNat + min chunk.toNat (remaining.toNat - reported.toNat) := by
  have hlt := UInt64.lt_iff_toNat_lt.mp h
  have hbound := remaining.toNat_lt
  rw [UInt64.toNat_add, toNat_step chunk h, Nat.mod_eq_of_lt (by omega)]

/-- The outer loop: a slice is run and reported at a time. The result, or the code that the
worker returns when a report cannot be sent. -/
def execute (wk : Worker) (m : Message) (d : ParsedDescriptor) (reported result : UInt64)
    (s : Session) : Except ℕ UInt64 × Session :=
  let remaining := d.total - d.resumeFrom
  if reported < remaining then
    let step := min d.chunk (remaining - reported)
    let (result, s) := wk.runSegments d.total (d.resumeFrom + reported) step result s
    let (ok, s) := s.sendFrame (encodeMessage (wk.progress m step))
    if ok then wk.execute m d (reported + step) result s else (.error 6, s)
  else (.ok result, s)
termination_by (d.total - d.resumeFrom).toNat - reported.toNat
decreasing_by
  have h : reported < d.total - d.resumeFrom := by assumption
  have hchunk : d.chunk.toNat ≠ 0 := fun h0 => d.chunk_ne (UInt64.toNat_inj.mp h0)
  have hlt := UInt64.lt_iff_toNat_lt.mp h
  have hstep := toNat_add_step d.chunk h
  omega

/-- A dispatch; the code that the worker returns, if it does. -/
def dispatch (wk : Worker) (m : Message) (s : Session) : Option ℕ × Session :=
  match m.descriptor.parse with
  | .error _ => (some 5, s)
  | .ok d =>
    match wk.execute m d 0 0 s with
    | (.error code, s) => (some code, s)
    | (.ok result, s) =>
      let (ok, s) := s.sendFrame (encodeMessage (wk.complete m result))
      (if ok then none else some 7, s)

/-- How a worker ends. -/
inductive Exit where
  /-- `runWorker` returns a code -/
  | code (n : ℕ)
  /-- an exception leaves it -/
  | uncaught (e : MessageError)
deriving DecidableEq

/-- What is left when a worker has ended. -/
structure Ending where
  exit : Exit
  unread : List Frame
  session : Session

/-- The loop over the frames. -/
def serve (wk : Worker) : List Frame → Session → Ending
  | [], s => ⟨.code 3, [], s⟩
  | f :: frames, s =>
    match decodeMessage f with
    | .error (.protocolError _) => wk.serve frames s
    | .error e => ⟨.uncaught e, frames, s⟩
    | .ok m =>
      match m.type with
      | .shutdown => ⟨.code 0, frames, s⟩
      | .ping => wk.serve frames (s.sendFrame (encodeMessage pong)).2
      | .cancel => ⟨.code 4, frames, s⟩
      | .dispatch =>
        match wk.dispatch m s with
        | (some code, s) => ⟨.code code, frames, s⟩
        | (none, s) => wk.serve frames s
      | _ => wk.serve frames s

/-- The worker, with a peer that sends these frames and is closed then. -/
def runWorker (wk : Worker) (frames : List Frame) (accepts : ℕ → Bool) : Ending :=
  let (ok, s) := ({ accepts } : Session).sendFrame (encodeMessage wk.hello)
  if ok then
    match frames with
    | [] => ⟨.code 2, [], s⟩
    | ack :: frames =>
      -- the first frame is decoded outside of the `try`, and not looked at
      match decodeMessage ack with
      | .error e => ⟨.uncaught e, frames, s⟩
      | .ok _ => wk.serve frames s
  else ⟨.code 2, frames, s⟩

end Worker

/-! ### What a dispatch does when everything is sent -/

namespace Session

/-- So much further: these frames were sent and these segments run. -/
def advance (s : Session) (frames : List Frame) (segments : List (UInt64 × UInt64)) : Session :=
  { s with
    offered := s.offered + frames.length
    sent := s.sent ++ frames
    calls := s.calls ++ segments }

@[simp] theorem accepts_advance (s : Session) (frames : List Frame)
    (segments : List (UInt64 × UInt64)) : (s.advance frames segments).accepts = s.accepts := rfl

theorem advance_nil (s : Session) : s.advance [] [] = s := by
  rw [advance, List.append_nil, List.append_nil]
  rfl

theorem advance_advance (s : Session) (fs gs : List Frame) (cs ds : List (UInt64 × UInt64)) :
    (s.advance fs cs).advance gs ds = s.advance (fs ++ gs) (cs ++ ds) := by
  simp only [advance, List.length_append, List.append_assoc, Nat.add_assoc]

theorem sendFrame_of_accepts {s : Session} (h : ∀ n, s.accepts n) (frame : Frame) :
    s.sendFrame frame = (true, s.advance [frame] []) := by
  rw [sendFrame, if_pos (h _), advance, List.append_nil]
  rfl

theorem call_eq (s : Session) (segment total : UInt64) :
    s.call segment total = s.advance [] [(segment, total)] := by
  rw [call, advance, List.append_nil]
  rfl

end Session

namespace Worker

/-- The values of the segments from `a` up to `b`, added up. -/
def work (wk : Worker) (total : UInt64) (a b : ℕ) : ℕ :=
  ((List.range' a (b - a)).map fun segment => (wk.runner (.ofNat segment) total).toNat).sum

/-- The segments from `a` up to `b`, as the runner is given them. -/
def segments (total : UInt64) (a b : ℕ) : List (UInt64 × UInt64) :=
  (List.range' a (b - a)).map fun segment => (.ofNat segment, total)

theorem toNat_segments (total : UInt64) (a : ℕ) :
    (segments total a total.toNat).map (·.1.toNat) =
      List.range' a (total.toNat - a) := by
  rw [segments, List.map_map]
  refine (List.map_congr_left fun segment h => ?_).trans (List.map_id' _)
  obtain ⟨ha, hlt⟩ := List.mem_range'_1.mp h
  have hbound : total.toNat < UInt64.size := total.toNat_lt
  exact UInt64.toNat_ofNat_of_lt' (by omega)

theorem range'_split {a b c : ℕ} (hab : a ≤ b) (hbc : b ≤ c) :
    List.range' a (c - a) = List.range' a (b - a) ++ List.range' b (c - b) := by
  have h : List.range' a (b - a) ++ List.range' (a + (b - a)) (c - b) =
      List.range' a (b - a + (c - b)) := List.range'_append_1
  rw [Nat.add_sub_cancel' hab] at h
  rw [h, show c - a = b - a + (c - b) by omega]

theorem work_add (wk : Worker) (total : UInt64) {a b c : ℕ} (hab : a ≤ b) (hbc : b ≤ c) :
    wk.work total a c = wk.work total a b + wk.work total b c := by
  rw [work, range'_split hab hbc, List.map_append, List.sum_append]
  rfl

theorem segments_append (total : UInt64) {a b c : ℕ} (hab : a ≤ b) (hbc : b ≤ c) :
    segments total a c = segments total a b ++ segments total b c := by
  rw [segments, range'_split hab hbc, List.map_append]
  rfl

theorem work_succ (wk : Worker) (total : UInt64) (a n : ℕ) :
    wk.work total a (a + (n + 1)) =
      wk.work total a (a + n) + (wk.runner (.ofNat (a + n)) total).toNat := by
  rw [wk.work_add total (Nat.le_add_right a n) (Nat.add_le_add_left n.le_succ a)]
  congr 1
  simp [work, ← Nat.add_assoc]

theorem segments_succ (total : UInt64) (a n : ℕ) :
    segments total a (a + (n + 1)) = segments total a (a + n) ++ [(.ofNat (a + n), total)] := by
  rw [segments_append total (Nat.le_add_right a n) (Nat.add_le_add_left n.le_succ a)]
  congr 1
  simp [segments, ← Nat.add_assoc]

theorem runSegments_eq (wk : Worker) (total first step result : UInt64) (s : Session) :
    wk.runSegments total first step result s =
      (result + .ofNat (wk.work total first.toNat (first.toNat + step.toNat)),
        s.advance [] (segments total first.toNat (first.toNat + step.toNat))) := by
  rw [runSegments]
  induction step.toNat with
  | zero => simp [work, segments, Session.advance_nil]
  | succ n ih =>
    have hsegment : first + .ofNat n = .ofNat (first.toNat + n) := by
      rw [UInt64.ofNat_add, UInt64.ofNat_toNat]
    rw [List.range_succ, List.foldl_append, ih, work_succ, segments_succ, ← hsegment,
      UInt64.ofNat_add, UInt64.ofNat_toNat, ← UInt64.add_assoc]
    simp only [List.foldl_cons, List.foldl_nil]
    rw [Session.call_eq, Session.advance_advance]
    rfl

theorem remaining_toNat (d : ParsedDescriptor) :
    (d.total - d.resumeFrom).toNat = d.total.toNat - d.resumeFrom.toNat :=
  UInt64.toNat_sub_of_le _ _ d.resumeFrom_le

/-- The slices in which the work of a descriptor is done. -/
def slices (d : ParsedDescriptor) : Chunking :=
  .atMost d.chunk.toNat (Nat.pos_of_ne_zero fun h => d.chunk_ne (UInt64.toNat_inj.mp h))

/-- The reports of the last `n` units, in slices from the `k`-th on. -/
def reports (wk : Worker) (m : Message) (d : ParsedDescriptor) (k n : ℕ) : List Frame :=
  ((slices d).chunks k n).map fun size => encodeMessage (wk.progress m (.ofNat size))

/-- One round of the outer loop, if its report is sent. -/
theorem execute_of_lt (wk : Worker) (m : Message) (d : ParsedDescriptor)
    {reported result first step : UInt64} {s : Session} (hs : ∀ n, s.accepts n)
    (h : reported < d.total - d.resumeFrom) (hfirst : d.resumeFrom + reported = first)
    (hstep : min d.chunk (d.total - d.resumeFrom - reported) = step) :
    wk.execute m d reported result s = wk.execute m d (reported + step)
      (result + .ofNat (wk.work d.total first.toNat (first.toNat + step.toNat)))
      (s.advance [encodeMessage (wk.progress m step)]
        (segments d.total first.toNat (first.toNat + step.toNat))) := by
  rw [execute]
  simp only [h, if_true, runSegments_eq, hfirst, hstep]
  rw [Session.sendFrame_of_accepts (by exact hs), Session.advance_advance, List.append_nil]
  rfl

/-- Where everything is sent, the outer loop runs and reports all that is left. -/
theorem execute_eq (wk : Worker) (m : Message) (d : ParsedDescriptor) (k n : ℕ)
    {reported result : UInt64} {s : Session} (hs : ∀ n, s.accepts n)
    (hn : reported.toNat + n = d.total.toNat - d.resumeFrom.toNat) :
    wk.execute m d reported result s =
      (.ok (result + .ofNat (wk.work d.total (d.total.toNat - n) d.total.toNat)),
        s.advance (wk.reports m d k n)
          (segments d.total (d.total.toNat - n) d.total.toNat)) := by
  have hle := UInt64.le_iff_toNat_le.mp d.resumeFrom_le
  induction k, n using (slices d).induction generalizing reported result s with
  | zero k =>
    have hdone : ¬reported < d.total - d.resumeFrom := by
      rw [UInt64.lt_iff_toNat_lt, remaining_toNat]
      omega
    rw [execute]
    simp [hdone, work, segments, reports, Session.advance_nil]
  | chunk k n hpos ih =>
    have hmore : reported < d.total - d.resumeFrom := by
      rw [UInt64.lt_iff_toNat_lt, remaining_toNat]
      omega
    have hsize : (slices d).size k n = min d.chunk.toNat n := rfl
    have hstep := toNat_step d.chunk hmore
    have hadd := toNat_add_step d.chunk hmore
    rw [remaining_toNat, ← hn, Nat.add_sub_cancel_left, ← hsize] at hstep hadd
    have hfirst : (d.resumeFrom + reported).toNat = d.total.toNat - n := by
      have hbound := d.total.toNat_lt
      rw [UInt64.toNat_add, Nat.mod_eq_of_lt (by omega)]
      omega
    have hslice := (slices d).size_le k n
    generalize hk : min d.chunk (d.total - d.resumeFrom - reported) = step at hstep hadd
    rw [execute_of_lt wk m d hs hmore rfl hk, ih (by exact hs) (by omega), hfirst, hstep,
      Session.advance_advance]
    have hcut : d.total.toNat - (n - (slices d).size k n) =
        d.total.toNat - n + (slices d).size k n := by omega
    have hlow : d.total.toNat - n ≤ d.total.toNat - n + (slices d).size k n := Nat.le_add_right _ _
    have hhigh : d.total.toNat - n + (slices d).size k n ≤ d.total.toNat := by omega
    rw [hcut, work_add wk d.total hlow hhigh, segments_append d.total hlow hhigh, reports, reports,
      (slices d).chunks_of_pos k hpos, List.map_cons, ← hstep, UInt64.ofNat_toNat,
      UInt64.ofNat_add, UInt64.add_assoc]
    rfl

/-- The number in the report of completion: the values of the segments, modulo `2 ^ 64`. -/
def result (wk : Worker) (total : UInt64) (a b : ℕ) : UInt64 := .ofNat (wk.work total a b)

/-- What is sent in answer to a dispatch. -/
def answer (wk : Worker) (m : Message) (d : ParsedDescriptor) : List Frame :=
  wk.reports m d 0 (d.total.toNat - d.resumeFrom.toNat) ++
    [encodeMessage (wk.complete m (wk.result d.total d.resumeFrom.toNat d.total.toNat))]

/-- A dispatch, where everything is sent. -/
theorem dispatch_eq {wk : Worker} {m : Message} {d : ParsedDescriptor}
    (hd : m.descriptor.parse = .ok d) {s : Session} (hs : ∀ n, s.accepts n) :
    wk.dispatch m s = (none,
      s.advance (wk.answer m d) (segments d.total d.resumeFrom.toNat d.total.toNat)) := by
  have hle := UInt64.le_iff_toNat_le.mp d.resumeFrom_le
  have hall : wk.execute m d 0 0 s = _ :=
    wk.execute_eq m d 0 (d.total.toNat - d.resumeFrom.toNat) hs (Nat.zero_add _)
  rw [Nat.sub_sub_self hle, UInt64.zero_add] at hall
  rw [dispatch, hd]
  simp only [hall]
  rw [Session.sendFrame_of_accepts (by exact hs), Session.advance_advance, List.append_nil]
  rfl

/-! ### Dispatches cover what remains -/

/-- The message is about the same workload and episode, under the same generations. -/
structure Echoes (m r : Message) : Prop where
  workloadId : r.workloadId = m.workloadId
  episodeId : r.episodeId = m.episodeId
  episodeGen : r.episodeGen = m.episodeGen
  workloadGen : r.workloadGen = m.workloadGen

/-- From `s` to `s'` the dispatch `m` of `d` is carried out. -/
structure CarriedOut (wk : Worker) (m : Message) (d : ParsedDescriptor) (s s' : Session) :
    Prop where
  /-- every segment that remains, once and in order -/
  calls : s'.calls = s.calls ++
    (List.range' d.resumeFrom.toNat (d.total.toNat - d.resumeFrom.toNat)).map
      fun segment => (.ofNat segment, d.total)
  sent : ∃ (reports : List Message) (done : Message),
    s'.sent = s.sent ++ (reports ++ [done]).map encodeMessage ∧
    (∀ r ∈ reports, r.type = .progress ∧ Echoes m r ∧ 1 ≤ r.value ∧ r.value ≤ d.chunk) ∧
    (reports.map fun r => r.value.toNat).sum = d.total.toNat - d.resumeFrom.toNat ∧
    done.type = .complete ∧ Echoes m done ∧
    done.payload = decimal (wk.result d.total d.resumeFrom.toNat d.total.toNat).toNat

theorem toNat_size {d : ParsedDescriptor} {k n size : ℕ} (h : size ∈ (slices d).chunks k n) :
    (UInt64.ofNat size).toNat = size :=
  UInt64.toNat_ofNat_of_lt' ((Chunking.mem_chunks_atMost h).2.trans_lt d.chunk.toNat_lt)

/-- The sizes that are reported are those of the slices. -/
theorem toNat_sizes (d : ParsedDescriptor) (k n : ℕ) :
    ((slices d).chunks k n).map (fun size => (UInt64.ofNat size).toNat) = (slices d).chunks k n :=
  (List.map_congr_left fun _ => toNat_size).trans (List.map_id' _)

theorem carriedOut_advance (wk : Worker) (m : Message) (d : ParsedDescriptor) (s : Session) :
    wk.CarriedOut m d s (s.advance (wk.answer m d)
      (segments d.total d.resumeFrom.toNat d.total.toNat)) := by
  refine ⟨rfl, ((slices d).chunks 0 (d.total.toNat - d.resumeFrom.toNat)).map
    fun size => wk.progress m (.ofNat size),
    wk.complete m (wk.result d.total d.resumeFrom.toNat d.total.toNat), ?_, ?_, ?_, rfl,
    ⟨rfl, rfl, rfl, rfl⟩, rfl⟩
  · rw [Session.advance, answer, reports, List.map_append, List.map_map]
    rfl
  · intro r hr
    obtain ⟨size, hmem, rfl⟩ := List.mem_map.mp hr
    obtain ⟨h1, hchunk⟩ := Chunking.mem_chunks_atMost hmem
    have hsize := toNat_size hmem
    refine ⟨rfl, ⟨rfl, rfl, rfl, rfl⟩, ?_, ?_⟩
    · rw [UInt64.le_iff_toNat_le]
      exact h1.trans_eq hsize.symm
    · rw [UInt64.le_iff_toNat_le]
      exact hsize.trans_le hchunk
  · rw [List.map_map]
    exact (congrArg List.sum (toNat_sizes d _ _)).trans ((slices d).sum_chunks _ _)

theorem result_add (wk : Worker) (total : UInt64) {a b c : ℕ} (hab : a ≤ b) (hbc : b ≤ c) :
    wk.result total a c = wk.result total a b + wk.result total b c := by
  rw [result, work_add wk total hab hbc, UInt64.ofNat_add]
  rfl

/-- The result for a stretch of segments is that of the runner on them. -/
theorem result_congr {wk : Worker} {total total' : UInt64} {a b : ℕ}
    (h : ∀ segment, a ≤ segment → segment < b →
      wk.runner (.ofNat segment) total = wk.runner (.ofNat segment) total') :
    wk.result total a b = wk.result total' a b := by
  rw [result, result, work, work]
  refine congrArg (fun values => UInt64.ofNat (List.sum values)) (List.map_congr_left ?_)
  intro segment hsegment
  obtain ⟨ha, hb⟩ := List.mem_range'_1.mp hsegment
  rw [h segment ha (by omega)]

/-- **A dispatch covers exactly the segments that remain**, whatever the chunk; and what is
worked out for a stretch of segments is the sum of what is worked out for its parts, also
where the first part is a dispatch of its own and the runner makes nothing of its total. -/
theorem dispatch_covers_remaining (wk : Worker) :
    (∀ (m : Message) (d : ParsedDescriptor) (s : Session), m.descriptor.parse = .ok d →
      (∀ n, s.accepts n) → ∃ s', wk.dispatch m s = (none, s') ∧ wk.CarriedOut m d s s') ∧
    ∀ total k resumeFrom : UInt64, resumeFrom ≤ k → k ≤ total →
      wk.result total resumeFrom.toNat total.toNat =
        wk.result total resumeFrom.toNat k.toNat + wk.result total k.toNat total.toNat ∧
      ((∀ segment < k, wk.runner segment k = wk.runner segment total) →
        wk.result total resumeFrom.toNat k.toNat = wk.result k resumeFrom.toNat k.toNat) := by
  refine ⟨fun m d s hd hs => ⟨_, dispatch_eq hd hs, wk.carriedOut_advance m d s⟩, ?_⟩
  intro total k resumeFrom hlow hhigh
  refine ⟨wk.result_add total (UInt64.le_iff_toNat_le.mp hlow) (UInt64.le_iff_toNat_le.mp hhigh),
    fun hrunner => result_congr fun segment _ hk => (hrunner _ ?_).symm⟩
  rwa [UInt64.lt_iff_toNat_lt, UInt64.toNat_ofNat_of_lt' (hk.trans k.toNat_lt)]

/-- Segments 1 to 4 of five, in slices of two. -/
theorem dispatch_covers_remaining_five :
    let wk : Worker := ⟨fun segment _ => segment, .fromU64 1, .fromU64 1⟩
    ∃ s', wk.dispatch { type := .dispatch, payload := text "5:1:2" } { accepts := fun _ => true } =
        (none, s') ∧ s'.calls = [(1, 5), (2, 5), (3, 5), (4, 5)] := by
  intro wk
  let d : ParsedDescriptor := {
    raw := text "5:1:2", total := 5, resumeFrom := 1, chunk := 2
    chunk_ne := (by decide), resumeFrom_le := (by decide) }
  obtain ⟨s', hs', hout⟩ := wk.dispatch_covers_remaining.1
    { type := .dispatch, payload := text "5:1:2" } d { accepts := fun _ => true } rfl fun _ => rfl
  exact ⟨s', hs', hout.calls⟩

/-! ### Dispatches are answered -/

/-- The message is a dispatch whose descriptor is parsed. -/
def Workable (m : Message) : Prop := m.type = .dispatch ∧ ∃ d, m.descriptor.parse = .ok d

/-- The message puts an end to the worker. -/
def Ends (m : Message) : Prop :=
  m.type = .shutdown ∨ m.type = .cancel ∨ m.type = .dispatch ∧ ¬∃ d, m.descriptor.parse = .ok d

/-- What is sent in answer to a message, the answers to `PING` aside. -/
def answers (wk : Worker) (m : Message) : List Frame :=
  match m.type, m.descriptor.parse with
  | .dispatch, .ok d => wk.answer m d
  | _, _ => []

/-- A worker that ended so has answered all dispatches before the first message that ends it,
has sent nothing else, and has stopped at that message if it is `SHUTDOWN` or `CANCEL`. -/
structure Heeds (wk : Worker) (frames : List Frame) (ms : List Message) (e : Ending) : Prop where
  answered : ∀ pre post, ms = pre ++ post → (∀ m ∈ pre, ¬Ends m) →
    encodeMessage wk.hello :: pre.flatMap wk.answers <+:
      e.session.sent.filter (· ≠ encodeMessage pong)
  /-- Where a dispatch that is not parsed comes first, there are none before it to be answered. -/
  only : ∀ pre post, ms = pre ++ post → (∀ m ∈ pre, ¬Ends m) → (∀ m ∈ post.head?, Ends m) →
    (pre = [] → ∀ m ∈ post.head?, m.type ≠ .dispatch) →
    e.session.sent.filter (· ≠ encodeMessage pong) =
      encodeMessage wk.hello :: pre.flatMap wk.answers
  stopped : ∀ pre m post, ms = pre ++ m :: post → (∀ m ∈ pre, ¬Ends m) →
    (m.type = .shutdown → e.exit = .code 0 ∧ e.unread = frames.drop (pre.length + 1)) ∧
    (m.type = .cancel → e.exit = .code 4 ∧ e.unread = frames.drop (pre.length + 1))

theorem type_eq_of_encode {m m' : Message} (h : encodeMessage m = encodeMessage m') :
    m.type = m'.type := by
  have htag : Writer.enum m.type = Writer.enum m'.type := by
    have hbody := List.append_cancel_left h
    exact (List.append_inj hbody rfl).1
  have hcode : CodedEnum.code m.type = CodedEnum.code m'.type := (List.cons.inj htag).1
  rw [← CodedEnum.ofCode_code m.type, hcode, CodedEnum.ofCode_code]

theorem answers_of_parse (wk : Worker) {m : Message} {d : ParsedDescriptor}
    (hm : m.type = .dispatch) (hd : m.descriptor.parse = .ok d) :
    wk.answers m = wk.answer m d := by
  rw [answers, hm, hd]

theorem answers_of_not_workable (wk : Worker) {m : Message} (hm : ¬Workable m) :
    wk.answers m = [] := by
  rw [answers]
  split
  · next d h hd => exact (hm ⟨h, d, hd⟩).elim
  · rfl

theorem answers_of_ne (wk : Worker) {m : Message} (hm : m.type ≠ .dispatch) :
    wk.answers m = [] := wk.answers_of_not_workable fun h => hm h.1

/-- An answer to a dispatch is not taken for one to `PING`. -/
theorem filter_answers (wk : Worker) (m : Message) :
    (wk.answers m).filter (· ≠ encodeMessage pong) = wk.answers m := by
  rw [List.filter_eq_self]
  intro f hf
  have hne {m' : Message} (h : m'.type ≠ .ping) : encodeMessage m' ≠ encodeMessage pong :=
    fun heq => h (type_eq_of_encode heq)
  rw [answers] at hf
  split at hf
  · rw [answer, reports, List.mem_append, List.mem_map, List.mem_singleton] at hf
    rcases hf with ⟨k, -, rfl⟩ | rfl
    · exact decide_eq_true (hne (show MsgType.progress ≠ .ping by decide))
    · exact decide_eq_true (hne (show MsgType.complete ≠ .ping by decide))
  · exact (List.not_mem_nil hf).elim

/-- The session goes on to `s'`, which answered the dispatches among `ms` and no others. -/
structure Answered (wk : Worker) (ms : List Message) (s s' : Session) : Prop where
  accepts : s'.accepts = s.accepts
  sent : s'.sent.filter (· ≠ encodeMessage pong) =
    s.sent.filter (· ≠ encodeMessage pong) ++ ms.flatMap wk.answers

theorem Answered.trans {wk : Worker} {ms ns : List Message} {s t u : Session}
    (hs : wk.Answered ms s t) (ht : wk.Answered ns t u) : wk.Answered (ms ++ ns) s u := by
  refine ⟨ht.accepts.trans hs.accepts, ?_⟩
  rw [ht.sent, hs.sent, List.append_assoc, List.flatMap_append]

/-- One message that does not end the worker. -/
theorem serve_cons {wk : Worker} {f : Frame} {m : Message} (hf : decodeMessage f = .ok m)
    (hm : ¬Ends m) (frames : List Frame) {s : Session} (hs : ∀ n, s.accepts n) :
    ∃ s' : Session, wk.Answered [m] s s' ∧ wk.serve (f :: frames) s = wk.serve frames s' := by
  have hsame (hne : m.type ≠ .dispatch) : wk.Answered [m] s s := by
    refine ⟨rfl, ?_⟩
    rw [List.flatMap_singleton, wk.answers_of_ne hne, List.append_nil]
  rw [serve, hf]
  dsimp only
  split
  · next h => exact (hm (.inl h)).elim
  · next h =>
    refine ⟨_, ⟨?_, ?_⟩, rfl⟩
    · rw [Session.sendFrame_of_accepts hs, Session.accepts_advance]
    · rw [Session.sendFrame_of_accepts hs, List.flatMap_singleton,
        wk.answers_of_ne (by rw [h]; decide)]
      simp [Session.advance]
  · next h => exact (hm (.inr (.inl h))).elim
  · next h =>
    obtain ⟨d, hd⟩ : ∃ d, m.descriptor.parse = .ok d :=
      not_not.mp fun hnone => hm (.inr (.inr ⟨h, hnone⟩))
    rw [dispatch_eq hd hs]
    refine ⟨s.advance (wk.answer m d) _, ⟨rfl, ?_⟩, rfl⟩
    rw [Session.advance, List.filter_append, List.flatMap_singleton, ← wk.answers_of_parse h hd,
      filter_answers]
  · next h => exact ⟨s, hsame h, rfl⟩

/-- The message that ends the worker: nothing is sent, and nothing is read behind it. -/
theorem serve_end (wk : Worker) {f : Frame} {m : Message} (hf : decodeMessage f = .ok m)
    (hm : Ends m) (frames : List Frame) (s : Session) :
    ∃ code, wk.serve (f :: frames) s = ⟨.code code, frames, s⟩ ∧
      (m.type = .shutdown → code = 0) ∧ (m.type = .cancel → code = 4) := by
  rw [serve, hf]
  dsimp only
  rcases hm with hm | hm | ⟨hm, hnone⟩
  · rw [hm]
    exact ⟨0, rfl, fun _ => rfl, fun h => absurd h (by decide)⟩
  · rw [hm]
    exact ⟨4, rfl, fun h => absurd h (by decide), fun _ => rfl⟩
  · rcases hd : m.descriptor.parse with d | d
    · rw [hm, dispatch, hd]
      exact ⟨5, rfl, fun h => absurd h (by decide), fun h => absurd h (by decide)⟩
    · exact (hnone ⟨d, hd⟩).elim

/-- Where the loop ends: behind the last frame, or at the first message that ends it. -/
theorem serve_eq (wk : Worker) {frames : List Frame} {ms : List Message}
    (hframes : frames.map decodeMessage = ms.map .ok) {s : Session} (hs : ∀ n, s.accepts n) :
    ∃ pre post, ms = pre ++ post ∧ (∀ m ∈ pre, ¬Ends m) ∧ (∀ m ∈ post.head?, Ends m) ∧
      wk.Answered pre s (wk.serve frames s).session ∧
      (wk.serve frames s).unread = frames.drop (pre.length + 1) ∧
      (post = [] → (wk.serve frames s).exit = .code 3) ∧
      ∀ m ∈ post.head?, (m.type = .shutdown → (wk.serve frames s).exit = .code 0) ∧
        (m.type = .cancel → (wk.serve frames s).exit = .code 4) := by
  induction frames generalizing ms s with
  | nil =>
    obtain rfl := List.map_eq_nil_iff.mp hframes.symm
    exact ⟨[], [], rfl, by simp, by simp, ⟨rfl, by simp [serve]⟩, rfl, fun _ => rfl, by simp⟩
  | cons f frames ih =>
    obtain ⟨m, ms, rfl, hf, hrest⟩ : ∃ m ms', ms = m :: ms' ∧ decodeMessage f = .ok m ∧
        frames.map decodeMessage = ms'.map .ok := by
      cases ms with
      | nil => cases hframes
      | cons m ms => exact ⟨m, ms, rfl, (List.cons.inj hframes).1, (List.cons.inj hframes).2⟩
    by_cases hm : Ends m
    · obtain ⟨code, hserve, hshutdown, hcancel⟩ := serve_end wk hf hm frames s
      rw [hserve]
      refine ⟨[], m :: ms, rfl, by simp, by simpa using hm, ⟨rfl, by simp⟩, rfl,
        fun h => absurd h (List.cons_ne_nil _ _), ?_⟩
      rintro m' ⟨⟩
      exact ⟨fun h => congrArg Exit.code (hshutdown h), fun h => congrArg Exit.code (hcancel h)⟩
    · obtain ⟨s', hanswered, hserve⟩ := serve_cons hf hm frames hs
      obtain ⟨pre, post, rfl, hpre, hpost, hsent, hunread, hend⟩ :=
        ih hrest (fun n => hanswered.accepts ▸ hs n)
      rw [hserve]
      refine ⟨m :: pre, post, rfl, ?_, hpost, hanswered.trans hsent, hunread, hend⟩
      intro m' hm'
      rcases List.mem_cons.mp hm' with rfl | hm'
      · exact hm
      · exact hpre m' hm'

/-- A stretch in front of which nothing ends lies in front of the first end. -/
theorem prefix_of_head {α : Type} {P : α → Prop} {pre post pre' post' : List α}
    (heq : pre' ++ post' = pre ++ post) (hpre' : ∀ a ∈ pre', ¬P a) (hpost : ∀ a ∈ post.head?, P a) :
    pre' <+: pre := by
  rcases List.append_eq_append_iff.mp heq with ⟨mid, rfl, -⟩ | ⟨mid, rfl, hmid⟩
  · exact List.prefix_append _ _
  · cases mid with
    | nil => rw [List.append_nil]
    | cons a mid =>
      rw [hmid] at hpost
      exact (hpre' a (by simp) (hpost a rfl)).elim

/-- There is one stretch up to the first end; with an element more in front, it is empty or has it
in front too. -/
theorem split_cons {α : Type} {P : α → Prop} {a : α} {pre post pre' post' : List α}
    (heq : a :: (pre ++ post) = pre' ++ post') (hpre : ∀ a ∈ pre, ¬P a)
    (hpost : ∀ a ∈ post.head?, P a) (hpre' : ∀ a ∈ pre', ¬P a) (hpost' : ∀ a ∈ post'.head?, P a) :
    pre' = [] ∧ post' = a :: (pre ++ post) ∨ pre' = a :: pre ∧ post' = post := by
  cases pre' with
  | nil => exact .inl ⟨rfl, heq.symm⟩
  | cons b pre' =>
    obtain ⟨rfl, htail⟩ := List.cons.inj heq
    have hle := prefix_of_head htail.symm (fun b hb => hpre' b (.tail _ hb)) hpost
    have hge := prefix_of_head htail hpre hpost'
    obtain rfl := hle.eq_of_length_le hge.length_le
    exact .inr ⟨rfl, (List.append_cancel_left htail).symm⟩

/-- The session of a worker that has said hello. -/
def announced (wk : Worker) (accepts : ℕ → Bool) : Session :=
  { accepts, offered := 1, sent := [encodeMessage wk.hello] }

theorem sendFrame_hello (wk : Worker) {accepts : ℕ → Bool} (h : accepts 0) :
    ({ accepts } : Session).sendFrame (encodeMessage wk.hello) =
      (true, wk.announced accepts) := by
  rw [Session.sendFrame, if_pos h]
  rfl

theorem runWorker_cons {wk : Worker} {f : Frame} {m : Message} (hf : decodeMessage f = .ok m)
    {frames : List Frame} {accepts : ℕ → Bool} (h : accepts 0) :
    wk.runWorker (f :: frames) accepts =
      wk.serve frames (wk.announced accepts) := by
  rw [runWorker, sendFrame_hello wk h]
  simp only [hf, if_true]

theorem filter_hello (wk : Worker) (accepts : ℕ → Bool) :
    (wk.announced accepts).sent.filter (· ≠ encodeMessage pong) = [encodeMessage wk.hello] := by
  refine List.filter_eq_self.mpr fun f hf => decide_eq_true fun heq => ?_
  rw [announced, List.mem_singleton] at hf
  exact absurd (type_eq_of_encode (hf.symm.trans heq)) (show MsgType.hello ≠ .ping by decide)

/-- A worker that has taken something else for its registration heeds all that follows. -/
theorem heeds_of_not_swallowed {wk : Worker} {f : Frame} {frames : List Frame} {m₀ : Message}
    {ms : List Message} (hframes : frames.map decodeMessage = ms.map .ok) {accepts : ℕ → Bool}
    (h : ∀ n, accepts n) (hfirst : m₀.type ≠ .shutdown ∧ m₀.type ≠ .cancel ∧ ¬Workable m₀) :
    wk.Heeds (f :: frames) (m₀ :: ms) (wk.serve frames (wk.announced accepts)) := by
  obtain ⟨pre, post, rfl, hpre, hpost, hanswered, hunread, -, hend⟩ :=
    serve_eq wk (s := wk.announced accepts) hframes h
  have hsent := hanswered.sent
  rw [filter_hello] at hsent
  constructor
  · intro pre' post' heq hpre'
    rw [hsent]
    cases pre' with
    | nil => exact List.prefix_append _ _
    | cons m pre' =>
      obtain ⟨rfl, htail⟩ := List.cons.inj heq
      obtain ⟨mid, rfl⟩ := prefix_of_head htail.symm (fun m hm => hpre' m (.tail _ hm)) hpost
      rw [List.flatMap_cons, wk.answers_of_not_workable hfirst.2.2, List.nil_append,
        List.flatMap_append, ← List.append_assoc]
      exact List.prefix_append _ _
  · intro pre' post' heq hpre' hpost' hne
    rcases split_cons heq hpre hpost hpre' hpost' with ⟨rfl, rfl⟩ | ⟨rfl, rfl⟩
    · -- what ends the worker at once would have to be an end that it has swallowed
      rcases hpost' m₀ rfl with hm | hm | hm
      · exact absurd hm hfirst.1
      · exact absurd hm hfirst.2.1
      · exact absurd hm.1 (hne rfl m₀ rfl)
    · rw [hsent, List.flatMap_cons, wk.answers_of_not_workable hfirst.2.2]
      rfl
  · intro pre' m post' heq hpre'
    have hends (hm : Ends m) (hne : m ≠ m₀) :
        (f :: frames).drop (pre'.length + 1) = frames.drop (pre.length + 1) ∧
          m ∈ post.head? := by
      rcases split_cons heq hpre hpost hpre' (by simpa using hm) with ⟨-, h⟩ | ⟨rfl, rfl⟩
      · exact absurd (List.cons.inj h).1 hne
      · exact ⟨rfl, rfl⟩
    refine ⟨fun hm => ?_, fun hm => ?_⟩
    · obtain ⟨hdrop, hmem⟩ := hends (.inl hm) fun heq => hfirst.1 (heq ▸ hm)
      exact ⟨(hend m hmem).1 hm, hunread.trans hdrop.symm⟩
    · obtain ⟨hdrop, hmem⟩ := hends (.inr (.inl hm)) fun heq => hfirst.2.1 (heq ▸ hm)
      exact ⟨(hend m hmem).2 hm, hunread.trans hdrop.symm⟩

/-- A worker that heeds everything has taken nothing that matters for its registration. -/
theorem not_swallowed_of_heeds {wk : Worker} {f : Frame} {frames : List Frame} {m₀ : Message}
    {ms : List Message} (hframes : frames.map decodeMessage = ms.map .ok) {accepts : ℕ → Bool}
    (h : ∀ n, accepts n)
    (hheeds : wk.Heeds (f :: frames) (m₀ :: ms) (wk.serve frames (wk.announced accepts))) :
    m₀.type ≠ .shutdown ∧ m₀.type ≠ .cancel ∧ ¬Workable m₀ := by
  obtain ⟨pre, post, rfl, hpre, hpost, hanswered, hunread, hclosed, -⟩ :=
    serve_eq wk (s := wk.announced accepts) hframes h
  -- one that stops at its first message leaves all others unread, and it reads one more
  have hstop {code : ℕ} (hcode : code ≠ 3) :
      ¬((wk.serve frames (wk.announced accepts)).exit = .code code ∧
        (wk.serve frames (wk.announced accepts)).unread = frames) := by
    rintro ⟨hexit, hall⟩
    rw [hunread] at hall
    have hlen := congrArg List.length hall
    rw [List.length_drop] at hlen
    have hnil : frames = [] := List.eq_nil_of_length_eq_zero (by omega)
    rw [hnil] at hframes
    have hpost : post = [] := (List.append_eq_nil_iff.mp (List.map_eq_nil_iff.mp hframes.symm)).2
    rw [hclosed hpost] at hexit
    exact hcode (Exit.code.inj hexit).symm
  have hfirst := hheeds.stopped [] m₀ _ rfl (by simp)
  refine ⟨fun hm => hstop (by decide) (hfirst.1 hm), fun hm => hstop (by decide) (hfirst.2 hm), ?_⟩
  rintro ⟨hm, d, hd⟩
  -- the first message is answered in front of all that is
  have hgoes : ¬Ends m₀ := by
    rintro (h | h | ⟨-, hnone⟩)
    · exact absurd (hm.symm.trans h) (by decide)
    · exact absurd (hm.symm.trans h) (by decide)
    · exact hnone ⟨d, hd⟩
  have hprefix := hheeds.answered (m₀ :: pre) post rfl fun m hmem => by
    rcases List.mem_cons.mp hmem with rfl | hmem
    · exact hgoes
    · exact hpre m hmem
  have hlen := hprefix.length_le
  rw [hanswered.sent, filter_hello, List.flatMap_cons, wk.answers_of_parse hm hd, answer] at hlen
  simp only [List.length_cons, List.length_append, List.length_nil] at hlen
  omega

/-- **Every dispatch is answered and every end heeded** exactly when the first message, which
the worker takes for its registration, is neither an end nor a dispatch that it could work. -/
theorem dispatches_answered_iff (wk : Worker) (frames : List Frame) (ms : List Message)
    (hframes : frames.map decodeMessage = ms.map .ok) (accepts : ℕ → Bool)
    (h : ∀ n, accepts n) :
    wk.Heeds frames ms (wk.runWorker frames accepts) ↔
      ∀ m ∈ ms.head?, m.type ≠ .shutdown ∧ m.type ≠ .cancel ∧ ¬Workable m := by
  rcases frames with _ | ⟨f, frames⟩ <;> rcases ms with _ | ⟨m, ms⟩
  · refine iff_of_true ⟨?_, ?_, ?_⟩ (by simp)
    · intro pre post hnil hpre
      obtain ⟨rfl, -⟩ := List.append_eq_nil_iff.mp hnil.symm
      rw [runWorker, sendFrame_hello wk (h 0)]
      exact (filter_hello wk accepts).symm ▸ List.prefix_rfl
    · intro pre post hnil
      obtain ⟨rfl, -⟩ := List.append_eq_nil_iff.mp hnil.symm
      rw [runWorker, sendFrame_hello wk (h 0)]
      exact fun _ _ _ => filter_hello wk accepts
    · intro pre m post hnil
      exact absurd hnil.symm (by simp)
  · cases hframes
  · cases hframes
  · obtain ⟨hf, hframes⟩ := List.cons.inj hframes
    rw [runWorker_cons hf (h 0)]
    constructor
    · rintro hheeds m' ⟨⟩
      exact not_swallowed_of_heeds hframes h hheeds
    · exact fun hfirst => heeds_of_not_swallowed hframes h (hfirst m rfl)

/-- A registration and a dispatch of one segment. -/
theorem dispatches_answered_iff_registered :
    let wk : Worker := ⟨fun segment _ => segment, .fromU64 1, .fromU64 1⟩
    let ms : List Message := [{ type := .register }, { type := .dispatch, payload := text "1:0:1" }]
    wk.Heeds (ms.map encodeMessage) ms (wk.runWorker (ms.map encodeMessage) fun _ => true) := by
  intro wk ms
  refine (wk.dispatches_answered_iff _ ms rfl _ fun _ => rfl).mpr ?_
  rintro m ⟨⟩
  exact ⟨by decide, by decide, fun h => absurd h.1 (by decide)⟩

/-- A worker that is told to shut down at once goes on until its peer is closed. -/
theorem dispatches_answered_iff_shutdown :
    ¬∀ (wk : Worker) (frames : List Frame) (ms : List Message),
      frames.map decodeMessage = ms.map .ok →
      wk.Heeds frames ms (wk.runWorker frames fun _ => true) := by
  intro h
  have hheeds := h ⟨fun segment _ => segment, .fromU64 1, .fromU64 1⟩
    [encodeMessage { type := .shutdown }] [{ type := .shutdown }] rfl
  have hexit := ((hheeds.stopped [] _ [] rfl (by simp)).1 rfl).1
  exact absurd hexit (by decide)

/-! ### The worker returns a code -/

/-- Whatever the frames are and whichever sends fail, no exception leaves the loop. -/
theorem serve_code (wk : Worker) (frames : List Frame) (s : Session) :
    ∃ n, (wk.serve frames s).exit = .code n := by
  induction frames generalizing s with
  | nil => exact ⟨3, rfl⟩
  | cons f frames ih =>
    rw [serve]
    split
    · exact ih s
    · next e hne he =>
      obtain ⟨what, rfl⟩ := decodeMessage_error he
      exact (hne what rfl).elim
    · next m hm =>
      cases m.type with
      | shutdown => exact ⟨0, rfl⟩
      | ping => exact ih _
      | cancel => exact ⟨4, rfl⟩
      | dispatch =>
        dsimp only
        rcases wk.dispatch m s with ⟨_ | code, s'⟩
        · exact ih s'
        · exact ⟨code, rfl⟩
      | hello => exact ih s
      | register => exact ih s
      | progress => exact ih s
      | complete => exact ih s

/-- **The worker returns a code** exactly when it does not get as far as a first frame, or
`decodeMessage` makes a message of it: what it throws there is not caught. -/
theorem returns_code_iff (wk : Worker) (frames : List Frame) (accepts : ℕ → Bool) :
    (∃ n, (wk.runWorker frames accepts).exit = .code n) ↔
      (accepts 0 → ∀ f ∈ frames.head?, ∃ m, decodeMessage f = .ok m) := by
  by_cases h : accepts 0
  · rw [runWorker, sendFrame_hello wk h]
    rcases frames with _ | ⟨f, frames⟩
    · exact iff_of_true ⟨2, rfl⟩ (by simp)
    · rcases hf : decodeMessage f with e | m
      · refine iff_of_false (fun ⟨n, hn⟩ => ?_) fun hall => ?_
        · simp [hf] at hn
        · obtain ⟨m, hm⟩ := hall h f rfl
          rw [hf] at hm
          cases hm
      · refine iff_of_true ?_ fun _ f' hf' => ?_
        · simp only [hf, if_true]
          exact wk.serve_code frames _
        · cases hf'
          exact ⟨m, hf⟩
  · rw [runWorker, Session.sendFrame, if_neg h]
    exact iff_of_true ⟨2, rfl⟩ fun h' => (h h').elim

/-- An empty frame in the place of the registration is thrown out of `runWorker`. -/
theorem returns_code_iff_empty_frame :
    ¬∀ (wk : Worker) (frames : List Frame) (accepts : ℕ → Bool),
      ∃ n, (wk.runWorker frames accepts).exit = .code n := by
  intro h
  obtain ⟨n, hn⟩ := h ⟨fun segment _ => segment, .fromU64 1, .fromU64 1⟩ [[]] fun _ => true
  cases hn

end Worker

end WorkloadFabric
