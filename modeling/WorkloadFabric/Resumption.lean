/-
Work that is killed and restarted.

Every round starts an episode and dispatches what is left of the work to a worker; of the
reports that the worker sends, some first ones reach the workload before the worker is lost.
The next round resumes from the progress that these made.

* **`resume_exact`** — however the rounds are cut, every report that arrives is accepted, and
  every segment is covered by one of them.
-/
import WorkloadFabric.ProgressAccounts
import WorkloadFabric.ProgressWindow
import WorkloadFabric.Worker

namespace WorkloadFabric

open Workload

/-! ### Rounds -/

/-- An incarnation of the work. -/
structure Round where
  /-- what is asked of the workload before the episode starts -/
  prepare : List Call
  episode : ExecutionEpisodeId
  owner : OwnerId
  ownerGen : OwnerGeneration
  advanceGeneration : Bool
  worker : Worker
  chunk : UInt64
  token : Text
  /-- after how many delivered reports the worker is lost, if it is -/
  lostAfter : Option ℕ

/-- A report that was delivered. -/
structure Delivery where
  outcome : Outcome
  /-- the segments that the worker ran for it -/
  segments : List ℕ
  /-- the workload behind it -/
  after : Workload

/-- Reports delivered one after the other. -/
def deliver (w : Workload) : List (Message × List ℕ) → List Delivery × Workload
  | [] => ([], w)
  | (m, segments) :: reports =>
    let e := w.reportProgress (.fromU64 m.episodeId) (.fromU64 m.episodeGen) m.value m.flag1 none
    let (ds, w') := deliver e.workload reports
    (⟨e.outcome, segments, e.workload⟩ :: ds, w')

namespace Round

def prepared (r : Round) (w : Workload) : Workload := w.run r.prepare

def started (r : Round) (w : Workload) : Effect :=
  (r.prepared w).startEpisode r.episode r.owner r.ownerGen r.advanceGeneration none

def admitted (r : Round) (w : Workload) : Effect :=
  (r.started w).workload.admitDispatch r.episode r.worker.workerId r.worker.bootId none

/-- The acknowledgement of the worker. -/
def register (r : Round) : Message :=
  { type := .register, workerId := r.worker.workerId.toU64, bootId := r.worker.bootId.toU64 }

/-- What the worker is told to do: the work of `w` that is left. -/
def dispatch (r : Round) (total : UInt64) (w : Workload) : Message :=
  { type := .dispatch, workloadId := w.id.toU64, episodeId := r.episode.toU64, episodeGen := 1,
    workloadGen := w.generation.toU64,
    payload := WorkDescriptor.render total w.progress.completed r.chunk, extra := r.token }

/-- The run of the worker, as it would be if nothing happened to it. -/
def session (r : Round) (total : UInt64) (w : Workload) : Session :=
  (r.worker.runWorker [encodeMessage r.register, encodeMessage (r.dispatch total w)]
    fun _ => true).session

/-- The `PROGRESS` messages that it sends. -/
def messages (r : Round) (total : UInt64) (w : Workload) : List Message :=
  ((r.session total w).sent.filterMap fun f => (decodeMessage f).toOption).filter
    (·.type = .progress)

/-- Each of them with the segments that the runner was given for it. -/
def reports (r : Round) (total : UInt64) (w : Workload) : List (Message × List ℕ) :=
  (r.messages total w).zip
    (cut ((r.messages total w).map (·.value.toNat)) ((r.session total w).calls.map (·.1.toNat)))

/-- Those that arrive. -/
def delivered (r : Round) (total : UInt64) (w : Workload) : List (Message × List ℕ) :=
  match r.lostAfter with
  | some k => (r.reports total w).take k
  | none => r.reports total w

def play (r : Round) (total : UInt64) (w : Workload) : List Delivery × Workload :=
  deliver (r.admitted w).workload (r.delivered total (r.admitted w).workload)

/-- The round can be played from `w`: a fresh episode starts and is dispatched. -/
structure Playable (r : Round) (w : Workload) : Prop where
  quiet : ∀ c ∈ r.prepare, ∀ episode gen delta durable,
    c.1 ≠ .reportProgress episode gen delta durable
  fresh : ∀ e ∈ (r.prepared w).episodes, e.id ≠ r.episode
  starts : (r.started w).outcome = .allow
  admits : (r.admitted w).outcome = .allow
  chunk_ne : r.chunk ≠ 0
  token_le : r.token.length ≤ kMaxFrameSize

end Round

/-- Rounds played one after the other. -/
def playAll (total : UInt64) : List Round → Workload → List Delivery × Workload
  | [], w => ([], w)
  | r :: rounds, w =>
    let (ds, w) := r.play total w
    let (ds', w) := playAll total rounds w
    (ds ++ ds', w)

/-- The rounds can all be played. -/
def AllPlayable (total : UInt64) : List Round → Workload → Prop
  | [], _ => True
  | r :: rounds, w => r.Playable w ∧ AllPlayable total rounds (r.play total w).2

/-! ### The messages of a round -/

namespace Worker

theorem decode_hello (wk : Worker) : decodeMessage (encodeMessage wk.hello) = .ok wk.hello :=
  decodeMessage_short (Nat.zero_le _)

theorem decode_progress (wk : Worker) (m : Message) (step : UInt64) :
    decodeMessage (encodeMessage (wk.progress m step)) = .ok (wk.progress m step) :=
  decodeMessage_short (Nat.zero_le _)

theorem decode_complete (wk : Worker) (m : Message) (result : UInt64) :
    decodeMessage (encodeMessage (wk.complete m result)) = .ok (wk.complete m result) := by
  refine decodeMessage_short ?_
  have h := length_decimal result
  exact (Nat.add_le_add_right h 0).trans (by decide)

/-- What was sent is decoded again. -/
theorem filterMap_decode {ms : List Message}
    (h : ∀ m ∈ ms, decodeMessage (encodeMessage m) = .ok m) :
    (ms.map encodeMessage).filterMap (fun f => (decodeMessage f).toOption) = ms := by
  rw [List.filterMap_map]
  refine (List.filterMap_congr fun m hm => ?_).trans List.filterMap_some
  rw [Function.comp, h m hm]
  rfl

/-- Only the reports of progress are such messages. -/
theorem progress_of_answer (wk : Worker) (m : Message) (d : ParsedDescriptor) :
    ((encodeMessage wk.hello :: wk.answer m d).filterMap
        fun f => (decodeMessage f).toOption).filter (·.type = .progress) =
      ((slices d).chunks 0 (d.total.toNat - d.resumeFrom.toNat)).map
        fun size => wk.progress m (.ofNat size) := by
  set reports := ((slices d).chunks 0 (d.total.toNat - d.resumeFrom.toNat)).map
    fun size => wk.progress m (.ofNat size) with hreports
  set done := wk.complete m (wk.result d.total d.resumeFrom.toNat d.total.toNat)
  have hsent : encodeMessage wk.hello :: wk.answer m d =
      (wk.hello :: (reports ++ [done])).map encodeMessage := by
    rw [answer, Worker.reports, hreports, List.map_cons, List.map_append, List.map_map]
    rfl
  have hprogress : ∀ r ∈ reports, ∃ step, r = wk.progress m step := by
    intro r hr
    obtain ⟨size, -, rfl⟩ := List.mem_map.mp hr
    exact ⟨_, rfl⟩
  rw [hsent, filterMap_decode]
  · have hhello : ¬(wk.hello.type = .progress) := by
      show ¬MsgType.hello = .progress
      decide
    have hdone : ¬(done.type = .progress) := by
      show ¬MsgType.complete = .progress
      decide
    rw [List.filter_cons_of_neg (by simpa using hhello), List.filter_append,
      List.filter_cons_of_neg (by simpa using hdone), List.filter_nil, List.append_nil]
    refine List.filter_eq_self.mpr fun r hr => ?_
    obtain ⟨step, rfl⟩ := hprogress r hr
    rfl
  · intro r hr
    rcases List.mem_cons.mp hr with rfl | hr
    · exact wk.decode_hello
    · rcases List.mem_append.mp hr with hr | hr
      · obtain ⟨step, rfl⟩ := hprogress r hr
        exact wk.decode_progress m step
      · rw [List.mem_singleton.mp hr]
        exact wk.decode_complete m _

/-- A run on one dispatch behind the acknowledgement, where everything is sent. -/
theorem runWorker_dispatch (wk : Worker) {ack m : Message} {d : ParsedDescriptor}
    (hack : decodeMessage (encodeMessage ack) = .ok ack)
    (hm : decodeMessage (encodeMessage m) = .ok m) (htype : m.type = .dispatch)
    (hd : m.descriptor.parse = .ok d) :
    (wk.runWorker [encodeMessage ack, encodeMessage m] fun _ => true).session =
      (wk.announced fun _ => true).advance (wk.answer m d)
        (segments d.total d.resumeFrom.toNat d.total.toNat) := by
  rw [runWorker_cons hack rfl, serve, hm]
  dsimp only
  rw [htype]
  dsimp only
  rw [dispatch_eq hd fun _ => rfl]
  rfl

end Worker

namespace Round

variable {r : Round} {total : UInt64} {w : Workload}

/-- The worker makes of the dispatch what was meant. -/
theorem exists_descriptor (hchunk : r.chunk ≠ 0) (hw : w.progress.completed ≤ total) :
    ∃ d : ParsedDescriptor, (r.dispatch total w).descriptor.parse = .ok d ∧ d.total = total ∧
      d.resumeFrom = w.progress.completed ∧ d.chunk = r.chunk :=
  WorkDescriptor.parsesAs_iff.mpr (WorkDescriptor.grammatical_render hchunk hw).accepted

/-- The worker sends one report for each slice of what is left, and has run its segments. -/
theorem reports_of_parse (htoken : r.token.length ≤ kMaxFrameSize) {d : ParsedDescriptor}
    (hd : (r.dispatch total w).descriptor.parse = .ok d) {ns : List ℕ}
    (hns : (Worker.slices d).chunks 0 (d.total.toNat - d.resumeFrom.toNat) = ns) :
    r.reports total w = (ns.map fun n => r.worker.progress (r.dispatch total w) (.ofNat n)).zip
      (cut ns (List.range' d.resumeFrom.toNat (d.total.toNat - d.resumeFrom.toNat))) := by
  have hack : decodeMessage (encodeMessage r.register) = .ok r.register :=
    decodeMessage_short (Nat.zero_le _)
  have hm : decodeMessage (encodeMessage (r.dispatch total w)) = .ok (r.dispatch total w) := by
    refine decodeMessage_short ?_
    have hpayload := WorkDescriptor.length_render total w.progress.completed r.chunk
    exact (Nat.add_le_add hpayload htoken).trans (by decide)
  have hsession := r.worker.runWorker_dispatch hack hm rfl hd
  have hmessages : r.messages total w =
      ns.map fun n => r.worker.progress (r.dispatch total w) (.ofNat n) := by
    rw [messages, session, hsession, ← hns]
    exact r.worker.progress_of_answer (r.dispatch total w) d
  have hcalls : (r.session total w).calls.map (·.1.toNat) =
      List.range' d.resumeFrom.toNat (d.total.toNat - d.resumeFrom.toNat) := by
    rw [session, hsession]
    exact Worker.toNat_segments d.total _
  have hvalues : (r.messages total w).map (·.value.toNat) = ns := by
    rw [hmessages, List.map_map, ← hns]
    exact Worker.toNat_sizes d _ _
  rw [reports, hvalues, hcalls, hmessages]

/-- The reports add up to what is left. -/
theorem reports_eq (hchunk : r.chunk ≠ 0) (htoken : r.token.length ≤ kMaxFrameSize)
    (hw : w.progress.completed ≤ total) :
    ∃ ns : List ℕ, (∀ n ∈ ns, n < 2 ^ 64) ∧
      ns.sum = total.toNat - w.progress.completed.toNat ∧
      r.reports total w = (ns.map fun n => r.worker.progress (r.dispatch total w) (.ofNat n)).zip
        (cut ns (List.range' w.progress.completed.toNat
          (total.toNat - w.progress.completed.toNat))) := by
  obtain ⟨d, hd, htotal, hresume, -⟩ := exists_descriptor hchunk hw
  have hreports := reports_of_parse htoken hd rfl
  have hsum := (Worker.slices d).sum_chunks 0 (d.total.toNat - d.resumeFrom.toNat)
  have hlt : ∀ n ∈ (Worker.slices d).chunks 0 (d.total.toNat - d.resumeFrom.toNat), n < 2 ^ 64 :=
    fun n hn => (Chunking.mem_chunks_atMost hn).2.trans_lt d.chunk.toNat_lt
  rw [← hresume, ← htotal]
  exact ⟨_, hlt, hsum, htotal ▸ hreports⟩

end Round

/-! ### Delivery -/

/-- The episode takes reports: it is found, authoritative and of its first generation, and the
workload has not ended. -/
structure Taking (id : ExecutionEpisodeId) (w : Workload) : Prop where
  found : ∃ ep, w.findEpisode id = some ep ∧ ep.generation = .fromU64 1 ∧ ep.authoritative = true
  cancelling : (w.cancelledFinal || isCancelling w.state) = false
  terminal : isTerminal w.state = false

/-- A report that fits what is left is accepted, and counted. -/
theorem Taking.report {id : ExecutionEpisodeId} {w : Workload} (h : Taking id w)
    {total : UInt64} (hw : Within total w) (delta : UInt64) (durable : Bool)
    (hfits : w.progress.completed.toNat + delta.toNat ≤ total.toNat) :
    (w.reportProgress id (.fromU64 1) delta durable none).outcome = .allow ∧
      Taking id (w.reportProgress id (.fromU64 1) delta durable none).workload ∧
      Within total (w.reportProgress id (.fromU64 1) delta durable none).workload ∧
      (w.reportProgress id (.fromU64 1) delta durable none).workload.progress.completed.toNat =
        w.progress.completed.toNat + delta.toNat := by
  obtain ⟨ep, hf, hgen, hauth⟩ := h.found
  have hstep := w.reportProgress_step none id (.fromU64 1) delta durable
  generalize (w.reportProgress id (.fromU64 1) delta durable none).workload = w' at hstep ⊢
  generalize (w.reportProgress id (.fromU64 1) delta durable none).outcome = o at hstep ⊢
  have hbound := total.toNat_lt
  have hsum : (w.progress.completed + delta).toNat = w.progress.completed.toNat + delta.toNat := by
    rw [UInt64.toNat_add, Nat.mod_eq_of_lt (by omega)]
  have hgranted : w.Granted (.reportProgress id (.fromU64 1) delta durable) := by
    refine ⟨⟨ep, hf, hgen.symm, hauth⟩, h.cancelling, h.terminal, ?_, ?_⟩
    · rintro ⟨-, hlt⟩
      rw [UInt64.lt_iff_toNat_lt, hsum, hw.fixed] at hlt
      omega
    · rw [Progress.advance, if_neg (by rw [Progress.advance_guard]; omega)]
      rfl
  obtain rfl := hstep.progress_iff.mpr hgranted
  refine ⟨rfl, ?_, hw.step hstep, ?_⟩
  · cases hstep with
    | rejected ho => exact absurd rfl ho
    | progress =>
      refine ⟨⟨creditEpisode delta durable ep, ?_, hgen, hauth⟩, h.cancelling, h.terminal⟩
      rw [findEpisode, modifyEpisode]
      exact (FirstMatch.find?_modifyFirst_self (f := creditEpisode delta durable) (fun _ => rfl)
        w.episodes).trans (congrArg _ hf)
  · obtain ⟨-, hp⟩ := Progress.advance_eq_some hstep.report.2
    rw [hp, hsum]

/-- An episode that starts is found under its new id. -/
theorem Taking.start {id : ExecutionEpisodeId} {w : Workload} {owner : OwnerId}
    {ownerGen : OwnerGeneration} {adv : Bool} (hnew : ∀ e ∈ w.episodes, e.id ≠ id)
    (ho : (w.startEpisode id owner ownerGen adv none).outcome = .allow) :
    Taking id (w.startEpisode id owner ownerGen adv none).workload := by
  have hstep := w.startEpisode_step none id owner ownerGen adv
  rw [ho] at hstep
  generalize (w.startEpisode id owner ownerGen adv none).workload = w' at hstep ⊢
  cases hstep with
  | rejected ho => exact absurd rfl ho
  | start hc _ =>
    obtain ⟨ep, hs, hid, hgen, -⟩ := w.started_succeeds id owner ownerGen adv
    have hold : ∀ e ∈ revokeAuthority w.episodes, (e.id == id) = false := by
      intro e he
      obtain ⟨e', he', rfl⟩ := List.mem_map.mp he
      exact beq_eq_false_iff_ne.mpr (hnew e' he')
    have hfound : (w.started id owner ownerGen adv).findEpisode id = some ep := by
      rw [findEpisode, hs.episodes]
      exact FirstMatch.find?_append_singleton (p := fun e : Episode => e.id == id)
        (beq_iff_eq.mpr hid) hold
    have hfinal : (w.started id owner ownerGen adv).cancelledFinal = false := by
      rw [started, beginEpisode]
      exact (moved_cancelledFinal ..).trans ((moved_cancelledFinal ..).trans hc)
    refine ⟨⟨ep, hfound, hgen, hs.authoritative⟩, ?_, ?_⟩
    · rw [hfinal, started_state]
      rfl
    · rw [started_state]
      rfl

/-- A dispatch takes nothing from the episode. -/
theorem Taking.dispatch {id : ExecutionEpisodeId} {w : Workload} (h : Taking id w)
    {worker : WorkerId} {boot : WorkerBootId}
    (ho : (w.admitDispatch id worker boot none).outcome = .allow) :
    Taking id (w.admitDispatch id worker boot none).workload := by
  obtain ⟨ep, hf, hgen, hauth⟩ := h.found
  have hstep := w.admitDispatch_step none id worker boot
  rw [ho] at hstep
  generalize (w.admitDispatch id worker boot none).workload = w' at hstep ⊢
  have hbound : (w.modifyEpisode id (bindWorker worker boot)).findEpisode id =
      some (bindWorker worker boot ep) := by
    rw [findEpisode, modifyEpisode]
    exact (FirstMatch.find?_modifyFirst_self (f := bindWorker worker boot) (fun _ => rfl)
      w.episodes).trans (congrArg _ hf)
  cases hstep with
  | rejected ho => exact absurd rfl ho
  | dispatch =>
    split
    case isTrue hstate =>
      have hfinal : w.cancelledFinal = false := (Bool.or_eq_false_iff.mp h.cancelling).1
      refine ⟨⟨bindWorker worker boot ep, ?_, hgen, hauth⟩, ?_, ?_⟩
      · rw [findEpisode, moved_episodes]
        exact hbound
      · rw [moved_cancelledFinal, moved_state]
        exact Bool.or_eq_false_iff.mpr ⟨hfinal, rfl⟩
      · rw [moved_state]
        rfl
    case isFalse => exact ⟨⟨_, hbound, hgen, hauth⟩, h.cancelling, h.terminal⟩

/-- Reports that fit together are accepted one after the other. -/
theorem deliver_taken {id : ExecutionEpisodeId} {total : UInt64} {reports : List (Message × List ℕ)}
    (hreports : ∀ p ∈ reports, p.1.episodeId = id.toU64 ∧ p.1.episodeGen = 1) {w : Workload}
    (h : Taking id w) (hw : Within total w)
    (hfits : w.progress.completed.toNat + (reports.map (·.1.value.toNat)).sum ≤ total.toNat) :
    (∀ d ∈ (deliver w reports).1, d.outcome = .allow ∧ d.after.progress.completed ≤ total) ∧
      (deliver w reports).1.map (·.segments) = reports.map Prod.snd ∧
      Within total (deliver w reports).2 ∧
      (deliver w reports).2.progress.completed.toNat =
        w.progress.completed.toNat + (reports.map (·.1.value.toNat)).sum := by
  induction reports generalizing w with
  | nil => exact ⟨by simp [deliver], rfl, hw, rfl⟩
  | cons p reports ih =>
    obtain ⟨m, segments⟩ := p
    obtain ⟨⟨hid, hgen⟩, hrest⟩ := List.forall_mem_cons.mp hreports
    have hid' : UniqueValue.fromU64 m.episodeId = id := congrArg UniqueValue.fromU64 hid
    have hgen' : (UniqueValue.fromU64 m.episodeGen : ExecutionEpisodeGeneration) = .fromU64 1 :=
      congrArg _ hgen
    rw [List.map_cons, List.sum_cons] at hfits
    dsimp only at hfits
    obtain ⟨hallow, htaking, hwithin, hcount⟩ := h.report hw m.value m.flag1 (by omega)
    obtain ⟨hall, hsegments, hlast, hsum⟩ := ih hrest htaking hwithin (by omega)
    rw [deliver, hid', hgen']
    refine ⟨List.forall_mem_cons.mpr ⟨⟨hallow, hwithin.within⟩, hall⟩, ?_, hlast, ?_⟩
    · rw [List.map_cons, List.map_cons]
      exact congrArg _ hsegments
    · rw [List.map_cons, List.sum_cons]
      dsimp only
      omega

/-! ### A round -/

namespace Round

variable {r : Round} {total : UInt64} {w : Workload}

/-- What is asked of the workload before the reports leaves its progress alone. -/
theorem Playable.progress_eq (h : r.Playable w) :
    (r.admitted w).workload.progress = w.progress := by
  have hquiet : (r.prepared w).progress = w.progress := by
    refine List.foldlRecOn (motive := fun w' : Workload => w'.progress = w.progress) r.prepare _ rfl
      fun w' hw' c hc => ?_
    refine ((w'.apply_step c.2 c.1).progress_eq ?_).trans hw'
    rintro episode gen delta durable ⟨hop, -⟩
    exact h.quiet c hc episode gen delta durable hop
  have hstarted := ((r.prepared w).startEpisode_step none r.episode r.owner r.ownerGen
    r.advanceGeneration).progress_eq fun _ _ _ _ hop => WorkloadOp.noConfusion hop.1
  have hadmitted := ((r.started w).workload.admitDispatch_step none r.episode r.worker.workerId
    r.worker.bootId).progress_eq fun _ _ _ _ hop => WorkloadOp.noConfusion hop.1
  exact hadmitted.trans (hstarted.trans hquiet)

theorem Playable.taking (h : r.Playable w) : Taking r.episode (r.admitted w).workload :=
  (Taking.start h.fresh h.starts).dispatch h.admits

theorem Playable.within (hw : Within total w) : Within total (r.admitted w).workload :=
  ((within_total hw r.prepare).step (startEpisode_step ..)).step (admitDispatch_step ..)

/-- Of the reports, some first ones arrive; all of them, where the worker is not lost. -/
theorem delivered_eq (hchunk : r.chunk ≠ 0) (htoken : r.token.length ≤ kMaxFrameSize)
    (hw : w.progress.completed ≤ total) :
    ∃ ns : List ℕ, (∀ n ∈ ns, n < 2 ^ 64) ∧
      ns.sum ≤ total.toNat - w.progress.completed.toNat ∧
      (r.lostAfter = none → ns.sum = total.toNat - w.progress.completed.toNat) ∧
      r.delivered total w =
        (ns.map fun n => r.worker.progress (r.dispatch total w) (.ofNat n)).zip
          (cut ns (List.range' w.progress.completed.toNat
            (total.toNat - w.progress.completed.toNat))) := by
  obtain ⟨ns, hlt, hsum, hreports⟩ := reports_eq hchunk htoken hw
  rw [delivered]
  rcases r.lostAfter with _ | k
  · exact ⟨ns, hlt, hsum.le, fun _ => hsum, hreports⟩
  · have hle : (ns.take k).sum ≤ ns.sum := by
      rw [← List.sum_take_add_sum_drop ns k]
      exact Nat.le_add_right _ _
    refine ⟨ns.take k, fun n hn => hlt n (List.mem_of_mem_take hn), hle.trans hsum.le,
      fun hlost => absurd hlost (by simp), ?_⟩
    dsimp only
    rw [hreports, List.zip, List.take_zipWith, take_cut, ← List.map_take]

/-- **A round is accounted for exactly.**  Its reports are accepted, and cover as many segments
as they count, behind those that were completed before. -/
theorem play_exact (h : r.Playable w) (hw : Within total w) :
    (∀ d ∈ (r.play total w).1, d.outcome = .allow ∧ d.after.progress.completed ≤ total) ∧
      Within total (r.play total w).2 ∧
      ∃ n : ℕ, ((r.play total w).1.map (·.segments)).flatten =
          List.range' w.progress.completed.toNat n ∧
        (r.play total w).2.progress.completed.toNat = w.progress.completed.toNat + n ∧
        (r.lostAfter = none → n = total.toNat - w.progress.completed.toNat) := by
  have hw' := Playable.within (r := r) hw
  have hp := h.progress_eq
  obtain ⟨ns, hlt, hle, hlost, hdelivered⟩ :=
    delivered_eq h.chunk_ne h.token_le hw'.within
  rw [hp] at hle hlost hdelivered
  have hcompleted : w.progress.completed.toNat ≤ total.toNat := UInt64.le_iff_toNat_le.mp hw.within
  set l := List.range' w.progress.completed.toNat (total.toNat - w.progress.completed.toNat)
  set ms := ns.map fun n =>
    r.worker.progress (r.dispatch total (r.admitted w).workload) (.ofNat n) with hms
  have hlength : ms.length = (cut ns l).length := by rw [hms, List.length_map, length_cut]
  have hvalues : ((ms.zip (cut ns l)).map (·.1.value.toNat)).sum = ns.sum := by
    congr 1
    calc (ms.zip (cut ns l)).map (·.1.value.toNat)
        = ((ms.zip (cut ns l)).map Prod.fst).map (·.value.toNat) := by
          rw [List.map_map]
          rfl
      _ = ms.map (·.value.toNat) := by rw [List.map_fst_zip hlength.le]
      _ = ns.map fun n => (UInt64.ofNat n).toNat := List.map_map
      _ = ns := (List.map_congr_left fun n hn => UInt64.toNat_ofNat_of_lt' (hlt n hn)).trans
        (List.map_id' _)
  have haddressed : ∀ p ∈ ms.zip (cut ns l),
      p.1.episodeId = r.episode.toU64 ∧ p.1.episodeGen = 1 := by
    intro p hp
    obtain ⟨n, -, hn⟩ := List.mem_map.mp (List.of_mem_zip (a := p.1) (b := p.2) hp).1
    rw [← hn]
    exact ⟨rfl, rfl⟩
  obtain ⟨hall, hsegments, hwithin, hcount⟩ := deliver_taken haddressed h.taking hw' (by
    rw [hp, hvalues]
    omega)
  rw [play, hdelivered]
  refine ⟨hall, hwithin, ns.sum, ?_, ?_, hlost⟩
  · rw [hsegments, List.map_snd_zip hlength.ge, flatten_cut, List.take_range'_of_length_ge hle]
  · rw [hcount, hp, hvalues]

end Round

/-! ### All rounds -/

/-- The rounds cover what is left, the last of them to its end. -/
theorem playAll_exact {total : UInt64} {last : Round} (hlast : last.lostAfter = none) :
    ∀ (rounds : List Round) {w : Workload}, Within total w →
      AllPlayable total (rounds ++ [last]) w →
      (∀ d ∈ (playAll total (rounds ++ [last]) w).1,
        d.outcome = .allow ∧ d.after.progress.completed ≤ total) ∧
      ((playAll total (rounds ++ [last]) w).1.map (·.segments)).flatten =
        List.range' w.progress.completed.toNat (total.toNat - w.progress.completed.toNat) ∧
      (playAll total (rounds ++ [last]) w).2.progress.completed = total
  | [], w, hw, ⟨hplayable, _⟩ => by
    obtain ⟨hall, -, n, hsegments, hcount, hn⟩ := Round.play_exact hplayable hw
    obtain rfl := hn hlast
    have hle := UInt64.le_iff_toNat_le.mp hw.within
    simp only [List.nil_append, playAll, List.append_nil]
    exact ⟨hall, hsegments, UInt64.toNat_inj.mp (by omega)⟩
  | r :: rounds, w, hw, ⟨hplayable, hrest⟩ => by
    obtain ⟨hall, hw', n, hsegments, hcount, -⟩ := Round.play_exact hplayable hw
    obtain ⟨hall', hsegments', hdone⟩ := playAll_exact hlast rounds hw' hrest
    have hle := UInt64.le_iff_toNat_le.mp hw'.within
    simp only [List.cons_append, playAll]
    refine ⟨List.forall_mem_append.mpr ⟨hall, hall'⟩, ?_, hdone⟩
    rw [List.map_append, List.flatten_append, hsegments, hsegments', hcount,
      List.range'_append_1]
    congr 1
    omega

/-- **Resuming is exact.**  Work with a KNOWN total is played in rounds, the last of them to its
end: every report that arrives is accepted, the total is never exceeded and is reached, and the
segments are covered one after the other. -/
theorem resume_exact {total : UInt64} {w : Workload} (hknown : w.progress.totalKind = .known)
    (htotal : w.progress.total = total) (hfresh : w.progress.completed = 0) {rounds : List Round}
    {last : Round} (hplayable : AllPlayable total (rounds ++ [last]) w)
    (hlast : last.lostAfter = none) :
    (∀ d ∈ (playAll total (rounds ++ [last]) w).1,
      d.outcome = .allow ∧ d.after.progress.completed ≤ total) ∧
    (playAll total (rounds ++ [last]) w).2.progress.completed = total ∧
    ((playAll total (rounds ++ [last]) w).1.map (·.segments)).flatten =
      List.range total.toNat ∧
    ∀ i < total.toNat,
      (playAll total (rounds ++ [last]) w).1.countP (fun d => i ∈ d.segments) = 1 := by
  have hw : Within total w := ⟨hknown, htotal, hfresh.trans_le (UInt64.zero_le)⟩
  obtain ⟨hall, hsegments, hdone⟩ := playAll_exact hlast rounds hw hplayable
  rw [hfresh] at hsegments
  have hrange : ((playAll total (rounds ++ [last]) w).1.map (·.segments)).flatten =
      List.range total.toNat := hsegments.trans List.range_eq_range'.symm
  refine ⟨hall, hdone, hrange, fun i hi => ?_⟩
  have hone := countP_mem_pieces (hrange ▸ List.nodup_range) (hrange ▸ List.mem_range.mpr hi)
  rwa [List.countP_map] at hone

/-- A workload with five segments, ready to start. -/
def fiveSegments : Workload :=
  { Workload.create (.fromU64 1) (text "w") (text "i") with
    state := .ready, progress := { totalKind := .known, total := 5 } }

/-- The worker is lost behind its first report, which covers two segments. -/
def lostRound : Round where
  prepare := []
  episode := .fromU64 1
  owner := .fromU64 1
  ownerGen := .fromU64 1
  advanceGeneration := true
  worker := ⟨fun segment _ => segment, .fromU64 7, .fromU64 1⟩
  chunk := 2
  token := []
  lostAfter := some 1

/-- Its restart, in slices of another size. -/
def restartRound : Round where
  prepare := [(.onWorkerLost (.fromU64 7) (.fromU64 1) (.fromU64 2), none)]
  episode := .fromU64 2
  owner := .fromU64 1
  ownerGen := .fromU64 1
  advanceGeneration := true
  worker := ⟨fun segment _ => segment, .fromU64 8, .fromU64 1⟩
  chunk := 3
  token := []
  lostAfter := none

/-- What the loss leaves behind. -/
def lostHalfway : Workload :=
  ((lostRound.admitted fiveSegments).workload.reportProgress (.fromU64 1) (.fromU64 1) 2 true
    none).workload

theorem play_lostRound : (lostRound.play 5 fiveSegments).2 = lostHalfway := by
  have hwithin : (lostRound.admitted fiveSegments).workload.progress.completed ≤ 5 := by decide
  obtain ⟨d, hd, htotal, hresume, hchunk⟩ :=
    Round.exists_descriptor (r := lostRound) (by decide) hwithin
  have hns : (Worker.slices d).chunks 0 (d.total.toNat - d.resumeFrom.toNat) = [2, 2, 1] := by
    have hsize (k n : ℕ) : (Worker.slices d).size k n = min 2 n :=
      congrArg (fun v : UInt64 => min v.toNat n) hchunk
    rw [htotal, hresume]
    show (Worker.slices d).chunks 0 5 = _
    simp [Chunking.chunks_of_pos, hsize]
  have hreports := Round.reports_of_parse (Nat.zero_le _) hd hns
  rw [Round.play, Round.delivered, hreports]
  rfl

theorem resume_exact_behind_loss :
    AllPlayable 5 ([lostRound] ++ [restartRound]) fiveSegments ∧
      (playAll 5 ([lostRound] ++ [restartRound]) fiveSegments).2.progress.completed = 5 := by
  have hlost : lostRound.Playable fiveSegments :=
    ⟨by simp [lostRound], by decide, by decide, by decide, by decide, Nat.zero_le _⟩
  have hrestart : restartRound.Playable (lostRound.play 5 fiveSegments).2 := by
    rw [play_lostRound]
    refine ⟨?_, by decide, by decide, by decide, by decide, Nat.zero_le _⟩
    intro c hc
    rw [List.mem_singleton.mp hc]
    intro _ _ _ _ h
    cases h
  have hplayable : AllPlayable 5 ([lostRound] ++ [restartRound]) fiveSegments :=
    ⟨hlost, hrestart, trivial⟩
  have htotal : fiveSegments.progress.total = 5 := rfl
  exact ⟨hplayable, (resume_exact rfl htotal rfl hplayable rfl).2.1⟩

end WorkloadFabric
